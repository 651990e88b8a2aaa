import LinuxChat.Logic.Hearing
import LinuxChat.Theorems.RoundTrip

/-!
# One conversation

What the clients hear of each other, over every interleaving of their threads
with the agent:

* whoever is logged in hears everything that is delivered, its own messages
  included, in the order of the queue, and so the same as everybody else
  (`conversation_shared`);
* what is heard was said, by a client under the name of its entry, and decodes
  to what was said (`heard_was_said`);
* the messages of one speaker are heard in the order it said them
  (`heard_in_order`);
* whoever has not logged in is told nothing (`told_after_login`).
-/

namespace LinuxChat

open CMem Trace ByteOrder

variable {s s' : Chat} {h h' : RelayHistory} {act : ChatAct} {o : RelayOut} {p q : UserPtr}
  {u : User}

/-! ## The same for all -/

/-- From where `p` is logged in, as long as it does not leave. -/
theorem heard_continues (hrun : Run relayMachine receiving h s)
    (hcont : Continues relayMachine receiving h s h' s') (hu : s.users.get? p = some u)
    (hin : u.loggedIn = true) (hstay : ∀ e ∈ h', e.1 ≠ .logout p) :
    heard (s'.inbox p) = heard (s.inbox p) ++ chatsOf (deliveredMessages h') := by
  have hall : Run relayMachine receiving (h ++ h') s' ∧ ((∀ e ∈ h', e.1 ≠ .logout p) →
      (∃ u', s'.users.get? p = some u' ∧ u'.loggedIn = true) ∧
        heard (s'.inbox p) = heard (s.inbox p) ++ chatsOf (deliveredMessages h')) := by
    refine hcont.invariant (I := fun h' s' => Run relayMachine receiving (h ++ h') s' ∧
      ((∀ e ∈ h', e.1 ≠ .logout p) →
        (∃ u', s'.users.get? p = some u' ∧ u'.loggedIn = true) ∧
          heard (s'.inbox p) = heard (s.inbox p) ++ chatsOf (deliveredMessages h')))
      ⟨by rwa [List.append_nil], fun _ => ⟨⟨u, hu, hin⟩, (List.append_nil _).symm⟩⟩ ?_
    intro h₁ s₁ act s₂ o ⟨hrun₁, hinv⟩ hg hstep
    obtain ⟨hchat, rfl⟩ := relayStep_inv hstep
    rw [← List.append_assoc]
    refine ⟨hrun₁.step hg hstep, fun hno => ?_⟩
    have hbefore : ∀ e ∈ h₁, e.1 ≠ .logout p := fun e he => hno e (List.mem_append_left _ he)
    have hact : act ≠ .logout p := hno _ (List.mem_append_right _ (List.mem_singleton_self _))
    obtain ⟨⟨u₁, hu₁, hin₁⟩, heq⟩ := hinv hbefore
    refine ⟨present_step (run_standing hrun₁) hchat hu₁ hin₁ hact, ?_⟩
    rw [heard_step_present (run_handed hrun₁) hchat hu₁ hin₁, heq, deliveredMessages_snoc,
      chatsOf_append, List.append_assoc]
  exact (hall.2 hstay).2

/-- **One conversation.** As a run goes on, every client that is logged in and stays so hears
exactly the chat messages that are delivered, in the order of their delivery; and what is
delivered, what the agent holds and what is queued is what was accepted, in order. -/
theorem conversation_shared (hrun : Run relayMachine receiving h s)
    (hcont : Continues relayMachine receiving h s h' s') :
    (∀ p u, s.users.get? p = some u → u.loggedIn = true → (∀ e ∈ h', e.1 ≠ .logout p) →
        heard (s'.inbox p) = heard (s.inbox p) ++ chatsOf (deliveredMessages h')) ∧
      deliveredMessages h ++ deliveredMessages h' ++ s'.bus.hand ++ s'.bus.queue =
        (acceptedMessages (h ++ h')).map Prod.snd := by
  refine ⟨fun p u hu hin hstay => heard_continues hrun hcont hu hin hstay, ?_⟩
  rw [← deliveredMessages_append]
  exact run_relayed (hrun.append hcont)

/-- Two clients log in, and both logins are delivered. -/
def twoClients : List ChatAct :=
  [.connect 1 1 5, .scan 1 (.login 8 (lit "bob")) ⟨1, 0, [], []⟩, .write 1, .announce 1 0,
    .bus (.test 1), .bus (.send 1), .snapshot 1 0, .connect 2 2 6,
    .scan 2 (.login 8 (lit "eve")) ⟨2, 0, [], []⟩, .write 2, .announce 2 0, .bus (.test 2),
    .bus (.send 2), .snapshot 2 0, .bus .receive, .bus .wait, .bus .deliver, .bus .post,
    .bus .receive, .bus .wait, .bus .deliver, .bus .post]

/-- The second says something, which is delivered. -/
def oneText : List ChatAct :=
  [.say 2 (.text 2 (lit "hi")) 7, .bus (.test 2), .bus (.send 2), .bus .receive, .bus .wait,
    .bus .deliver]

/-- A text of the second client is heard by both. -/
theorem conversation_shared_two : ∃ h h' s s', Continues relayMachine receiving h s h' s' ∧
    (chatsOf (deliveredMessages h')).length = 1 ∧ ∀ p ∈ [1, 2],
      heard (s'.inbox p) = heard (s.inbox p) ++ chatsOf (deliveredMessages h') := by
  obtain ⟨h, s, h', s', hrun, hcont, hend⟩ := Continues.exists_of_replay
    (M := relayMachine) (G := receiving) (K := receiving) twoClients oneText
    (fun _ s h' _ => (chatsOf (deliveredMessages h')).length == 1 &&
      (s.users.get? 1).any (·.loggedIn) && (s.users.get? 2).any (·.loggedIn) &&
      h'.all fun e => !(e.1 matches .logout _)) (by decide +kernel)
  simp only [Bool.and_eq_true, beq_iff_eq, Option.any_eq_true, List.all_eq_true] at hend
  obtain ⟨⟨⟨hone, u, hu, hin⟩, v, hv, hin'⟩, hstay⟩ := hend
  have hno : ∀ p, ∀ e ∈ h', e.1 ≠ .logout p := by
    intro p e he heq
    have hnot := hstay e he
    rw [heq] at hnot
    cases hnot
  have hshared := (conversation_shared hrun hcont).1
  refine ⟨h, h', s, s', hcont, hone, fun p hp => ?_⟩
  rcases List.mem_cons.mp hp with rfl | hp
  · exact hshared 1 u hu hin (hno 1)
  · rw [List.mem_singleton.mp hp]
    exact hshared 2 v hv hin' (hno 2)

/-! ## Who said it -/

/-- What a client has heard is a part of what was delivered. -/
theorem heard_sublist {G : Guard Chat ChatAct RelayOut} (hrun : Run relayMachine G h s) :
    ∀ p, ∃ D, D.Sublist (deliveredMessages h) ∧ heard (s.inbox p) = chatsOf D := by
  have hall : Run relayMachine G h s ∧
      ∀ p, ∃ D, D.Sublist (deliveredMessages h) ∧ heard (s.inbox p) = chatsOf D := by
    refine hrun.invariant (I := fun h s => Run relayMachine G h s ∧
      ∀ p, ∃ D, D.Sublist (deliveredMessages h) ∧ heard (s.inbox p) = chatsOf D)
      ⟨.init, fun p => ⟨[], List.nil_sublist _, rfl⟩⟩ ?_
    intro h s act s' o ⟨hrun, hinv⟩ hg hstep
    obtain ⟨hchat, rfl⟩ := relayStep_inv hstep
    refine ⟨hrun.step hg hstep, fun p => ?_⟩
    obtain ⟨D, hD, hheard⟩ := hinv p
    rw [deliveredMessages_snoc]
    rcases heard_step (run_standing hrun) (run_handed hrun) hchat p with hnil | hsame | hnew
    · exact ⟨[], List.nil_sublist _, by rw [hnil]; rfl⟩
    · exact ⟨D, hD.trans (List.sublist_append_left ..), hsame.trans hheard⟩
    · exact ⟨D ++ (relayOut s act).delivered?.toList, hD.append (List.Sublist.refl _),
        by rw [hnew, hheard, chatsOf_append]⟩
  exact hall.2

/-- The call a client has not come back from. -/
def pendingCall (s : Chat) (p : UserPtr) : List (UserPtr × QueueMessage) :=
  (s.bus.callers p).toList.map fun c => (p, c.2)

/-- The accepted messages of each client, and the one it is at, are a part of what it handed
over, in order. -/
def InOrder (h : RelayHistory) (s : Chat) : Prop :=
  ∀ p, ((acceptedMessages h).filter (·.1 = p) ++ pendingCall s p).Sublist
    ((handedOver h).filter (·.1 = p))

/-- A step that accepts nothing and begins no call. -/
theorem InOrder.frame (hinv : InOrder h s) (haccept : o.accepted? = none)
    (hcalls : ∀ p, (pendingCall s' p).Sublist (pendingCall s p)) :
    InOrder (h ++ [(act, o)]) s' := by
  intro p
  rw [acceptedMessages_snoc, handedOver_snoc, haccept, Option.toList_none, List.append_nil,
    List.filter_append]
  exact (((List.Sublist.refl _).append (hcalls p)).trans (hinv p)).trans
    (List.sublist_append_left ..)

theorem pendingCall_update {b : Broadcast UserPtr QueueMessage}
    {x : Option (SendPhase × QueueMessage)} (hcalls : b.callers = Function.update s.bus.callers q x)
    (hbus : s'.bus = b) (p : UserPtr) : pendingCall s' p =
      if p = q then x.toList.map fun c => (q, c.2) else pendingCall s p := by
  unfold pendingCall
  rw [hbus, hcalls]
  by_cases hpq : p = q
  · subst hpq
    rw [Function.update_self, if_pos rfl]
  · rw [Function.update_of_ne hpq, if_neg hpq]

theorem pendingCall_same {b : Broadcast UserPtr QueueMessage} (hcalls : b.callers = s.bus.callers)
    (hbus : s'.bus = b) (p : UserPtr) : pendingCall s' p = pendingCall s p := by
  unfold pendingCall
  rw [hbus, hcalls]

/-- A call of `broadcast_message` begins: its message is handed over, behind those before it. -/
theorem InOrder.call (hinv : InOrder h s) {m : QueueMessage} {b : Broadcast UserPtr QueueMessage}
    {x : BroadcastOut QueueMessage} (hstep : broadcastStep s.bus (.getattr q m) = some (b, x))
    (hbus : s'.bus = b) (hout : o.accepted? = none ∧ o.handed? = some (q, m)) :
    InOrder (h ++ [(act, o)]) s' := by
  have hfree : s.bus.callers q = none := by
    by_contra hbusy
    obtain ⟨c, hc⟩ := Option.ne_none_iff_exists'.mp hbusy
    simp [broadcastStep, hc] at hstep
  simp only [broadcastStep, hfree, Option.some.injEq, Prod.mk.injEq] at hstep
  obtain ⟨rfl, -⟩ := hstep
  intro p
  have hold := hinv p
  rw [acceptedMessages_snoc, handedOver_snoc, hout.1, hout.2, Option.toList_none,
    List.append_nil, Option.toList_some, List.filter_append, pendingCall_update rfl hbus]
  by_cases hpq : p = q
  · subst hpq
    have hnone : pendingCall s p = [] := by rw [pendingCall, hfree]; rfl
    rw [hnone, List.append_nil] at hold
    rw [if_pos rfl]
    refine hold.append ?_
    simp
  · rw [if_neg hpq]
    exact hold.trans (List.sublist_append_left ..)

theorem inOrder_step (hinv : InOrder h s) (hstep : relayStep s act = some (s', o)) :
    InOrder (h ++ [(act, o)]) s' := by
  obtain ⟨hchat, rfl⟩ := relayStep_inv hstep
  cases hchat with
  | @announce q u now b x hu hphase hbus =>
      exact hinv.call hbus rfl (by simp [relayOut, hu, RelayOut.accepted?, RelayOut.handed?])
  | @say q u f now b x hu hidle hcode hbus =>
      exact hinv.call hbus rfl
        (by simp [relayOut, hu, RelayOut.accepted?, RelayOut.handed?, chatMessage])
  | @bus a b x hget hbus =>
      by_cases hsend : ∃ c, a = .send c
      · obtain ⟨c, rfl⟩ := hsend
        obtain ⟨m, hcall, -, -, hcalls, -⟩ := broadcastStep_send hbus
        intro p
        have hold := hinv p
        have hout : relayOut s (.bus (.send c)) = .accepted c m := by simp [relayOut, hcall]
        rw [acceptedMessages_snoc, handedOver_snoc, hout, pendingCall_update hcalls rfl]
        show ((acceptedMessages h ++ [(c, m)]).filter (·.1 = p) ++ _).Sublist
          ((handedOver h ++ []).filter (·.1 = p))
        rw [List.append_nil, List.filter_append]
        by_cases hpc : p = c
        · -- The call that comes back was the pending one.
          subst hpc
          rw [pendingCall, hcall] at hold
          simpa using hold
        · rw [if_neg hpc]
          simpa [Ne.symm hpc] using hold
      · have hno : (relayOut s (.bus a)).accepted? = none := by
          by_cases hdeliver : a = .deliver
          · subst hdeliver
            rcases Option.eq_none_or_eq_some s.bus.buffer with hbuffer | ⟨m, hbuffer⟩ <;>
              simp [relayOut, hbuffer, RelayOut.accepted?]
          · rw [relayOut_other (fun c hc => hsend ⟨c, hc⟩) hdeliver]
            rfl
        refine hinv.frame hno fun p => ?_
        cases broadcastStep_move hbus with
        | getattr => exact absurd rfl (hget _ _)
        | sent => exact absurd ⟨_, rfl⟩ hsend
        | @passed _ c m hcall _ _ _ hcalls =>
            rw [pendingCall_update hcalls rfl]
            split
            · rename_i hpc
              rw [hpc, pendingCall, hcall]
              exact List.Sublist.refl _
            · exact List.Sublist.refl _
        | @refused _ c m hcall _ _ _ hcalls =>
            rw [pendingCall_update hcalls rfl]
            split
            · exact List.nil_sublist _
            · exact List.Sublist.refl _
        | received _ _ _ hcalls => rw [pendingCall_same hcalls rfl]
        | failed _ _ hcalls => rw [pendingCall_same hcalls rfl]
        | delivered _ _ _ hcalls => rw [pendingCall_same hcalls rfl]
        | other _ _ hcalls => rw [pendingCall_same hcalls rfl]
  | _ => exact hinv.frame rfl fun _ => List.Sublist.refl _

theorem run_inOrder {G : Guard Chat ChatAct RelayOut} (hrun : Run relayMachine G h s) :
    InOrder h s :=
  hrun.invariant (I := InOrder) (fun _ => List.Sublist.refl _)
    fun _ _ _ _ _ hinv _ hstep => inOrder_step hinv hstep

/-- **Everybody hears a speaker in order.** What a client has heard is a part of what was accepted,
each message once and in the order of the queue; and the messages of any one client among these
are in the order in which it handed them over. -/
theorem heard_in_order (hrun : Run relayMachine receiving h s) (p : UserPtr) :
    ∃ L : List (UserPtr × QueueMessage), L.Sublist (acceptedMessages h) ∧
      heard (s.inbox p) = chatsOf (L.map Prod.snd) ∧
      ∀ q, (L.filter (·.1 = q)).Sublist ((handedOver h).filter (·.1 = q)) := by
  obtain ⟨D, hD, hheard⟩ := heard_sublist hrun p
  have hsub : D.Sublist ((acceptedMessages h).map Prod.snd) := by
    rw [← run_relayed hrun, List.append_assoc]
    exact hD.trans (List.sublist_append_left ..)
  obtain ⟨L, hL, rfl⟩ := List.sublist_map_iff.mp hsub
  refine ⟨L, hL, hheard, fun q => (hL.filter _).trans ?_⟩
  exact (List.sublist_append_left ..).trans (run_inOrder hrun q)

/-- Two texts of the second client, heard by the first. -/
theorem heard_in_order_two : ∃ (h : RelayHistory) (s : Chat) (L : List (UserPtr × QueueMessage)),
    (heard (s.inbox 1)).length = 2 ∧ heard (s.inbox 1) = chatsOf (L.map Prod.snd) ∧
      (L.filter (·.1 = 2)).Sublist ((handedOver h).filter (·.1 = 2)) := by
  obtain ⟨h, s, hrun, hend⟩ := Run.exists_of_replay (M := relayMachine) (G := receiving)
    (twoClients ++ oneText ++ [.say 2 (.text 3 (lit "you")) 8, .bus (.test 2), .bus (.send 2),
      .bus .post, .bus .receive, .bus .wait, .bus .deliver])
    (fun _ s => (heard (s.inbox 1)).length == 2) (by decide +kernel)
  obtain ⟨L, -, hheard, horder⟩ := heard_in_order hrun 1
  exact ⟨h, s, L, by simpa using hend, hheard, horder 2⟩

/-! ## Who is not there -/

/-- Who has not logged in on its connection has been sent nothing. -/
def Untold (s : Chat) : Prop :=
  ∀ p u, s.users.get? p = some u → u.nameLength = 0 → u.loggedIn = false ∧ s.inbox p = []

/-- An entry that has not logged in was not logged in before either. -/
theorem entry_before (hstand : Standing s) (hstep : ChatStep s act s')
    (hno : ∀ thread sock, act ≠ .connect p thread sock) {u' : User}
    (hu' : s'.users.get? p = some u') (hzero : u'.nameLength = 0) :
    ∃ u, s.users.get? p = some u ∧ u.nameLength = 0 ∧
      (u.loggedIn = false → u'.loggedIn = false) := by
  cases hstep with
  | @connect q thread sock hq hnone =>
      have hpq : p ≠ q := by
        rintro rfl
        exact hno thread sock rfl
      rw [Table.get?_append, if_neg hpq] at hu'
      exact ⟨u', hu', hzero, id⟩
  | @write q name size hphase =>
      obtain ⟨u, hu, rfl⟩ := Table.exists_of_get?_modify hu'
      by_cases hpq : p = q
      · subst hpq
        have hsize : size ≠ 0 := hstand.at hu hphase
        rw [if_pos rfl] at hzero
        exact absurd hzero hsize
      · rw [if_neg hpq] at hzero ⊢
        exact ⟨u, hu, hzero, id⟩
  | @logout q v hv hidle =>
      obtain ⟨u, hu, rfl⟩ := Table.exists_of_get?_modify hu'
      refine ⟨u, hu, ?_, ?_⟩
      · split at hzero <;> exact hzero
      · intro hout
        split
        · rfl
        · exact hout
  | @remove q v hv hphase =>
      have hrm := congrArg Prod.snd (UserList.removeUser_of_sockUnique hstand.sockUnique hv)
      rw [hrm, Table.get?_erase] at hu'
      split at hu'
      · cases hu'
      · exact ⟨u', hu', hzero, id⟩
  | _ => exact ⟨u', hu', hzero, id⟩

theorem untold_step (hinv : Untold s) (hstand : Standing s) (hstep : ChatStep s act s') :
    Untold s' := by
  intro p u' hu' hzero
  by_cases hconn : ∃ thread sock, act = .connect p thread sock
  · obtain ⟨thread, sock, rfl⟩ := hconn
    cases hstep with
    | connect =>
        rw [Table.get?_append, if_pos rfl, Option.some.injEq] at hu'
        exact ⟨hu' ▸ rfl, Function.update_self ..⟩
  · have hno : ∀ thread sock, act ≠ .connect p thread sock := fun thread sock heq =>
      hconn ⟨thread, sock, heq⟩
    obtain ⟨u, hu, hu0, hkept⟩ := entry_before hstand hstep hno hu' hzero
    obtain ⟨hout, hnil⟩ := hinv p u hu hu0
    have habs : Absent s p := by
      intro v hv
      rw [hu, Option.some.injEq] at hv
      exact hv ▸ hout
    exact ⟨hkept hout, (inbox_step_absent hstand hstep habs hno).trans hnil⟩

theorem run_untold {G : Guard Chat ChatAct RelayOut} (hrun : Run relayMachine G h s) :
    Untold s := by
  have hall : Standing s ∧ Untold s := by
    refine hrun.invariant (I := fun _ s => Standing s ∧ Untold s)
      ⟨standing_init, fun p u hu => by simp [Chat.init, relayMachine] at hu⟩ ?_
    rintro h s act s' o ⟨hstand, hinv⟩ - hstep
    have hchat := (relayStep_inv hstep).1
    exact ⟨standing_step hstand hchat, untold_step hinv hstand hchat⟩
  exact hall.2

/-- **Who has not logged in is told nothing.** As long as no login has been accepted on a
connection, which is what `name_length` 0 says, neither the agent nor a loop over the users has
sent it anything. -/
theorem told_after_login {G : Guard Chat ChatAct RelayOut} (hrun : Run relayMachine G h s)
    (hu : s.users.get? p = some u) (hzero : u.nameLength = 0) : s.inbox p = [] :=
  (run_untold hrun p u hu hzero).2

/-- A connection that has not logged in gets nothing of what the others say. -/
theorem told_after_login_third : ∃ h s, Run relayMachine anyStep h s ∧
    (chatsOf (deliveredMessages h)).length = 1 ∧ 3 ∈ s.users.keys ∧ s.inbox 3 = [] := by
  obtain ⟨h, s, hrun, hend⟩ := Run.exists_of_replay (M := relayMachine) (G := anyStep)
    (twoClients ++ [.connect 3 3 7] ++ oneText)
    (fun h s => (chatsOf (deliveredMessages h)).length == 1 &&
      (s.users.get? 3).any fun u => u.nameLength == 0) (by decide +kernel)
  simp only [Bool.and_eq_true, beq_iff_eq, Option.any_eq_true] at hend
  obtain ⟨hone, u, hu, hzero⟩ := hend
  exact ⟨h, s, hrun, hone, Table.mem_keys_iff.mpr ⟨u, hu⟩, told_after_login hrun hu hzero⟩

end LinuxChat
