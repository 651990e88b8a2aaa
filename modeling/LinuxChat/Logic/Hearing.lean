import LinuxChat.Logic.Relay

/-!
# What a step adds to an inbox

Who is logged in gets what the agent delivers and nothing else of its kind;
who is not gets nothing. A thread that is in a login is logged in, one that is
leaving is not (`Standing`), so the position of a thread says which of the two
its client is.
-/

namespace LinuxChat

open CMem Trace

variable {s s' : Chat} {act : ChatAct} {p q : UserPtr} {u : User}

/-! ## Entries and threads -/

/-- An entry, if there is one, and the position of its thread. -/
def StandsAt : Option User → LoginPhase → Prop
  | none, φ => φ = .idle
  | some u, .written | some u, .announcing => u.loggedIn = true
  | some u, .loggedOut | some u, .notified => u.loggedIn = false
  | some _, .idle => True
  | some _, .checked _ size => size ≠ 0

/-- A thread that logs in is logged in, one that leaves is logged out. -/
structure Standing (s : Chat) : Prop where
  sockUnique : UserList.SockUnique s.users
  stands : ∀ q, StandsAt (s.users.get? q) (s.phase q)

/-- A thread that is not between two frames has an entry. -/
theorem Standing.exists_entry (hinv : Standing s) (hphase : s.phase q ≠ .idle) :
    ∃ u, s.users.get? q = some u := by
  have hq := hinv.stands q
  cases hu : s.users.get? q with
  | none =>
      rw [hu] at hq
      exact absurd hq hphase
  | some u => exact ⟨u, rfl⟩

/-- What the position of a thread says of its entry. -/
theorem Standing.at {φ : LoginPhase} (hinv : Standing s) (hu : s.users.get? q = some u)
    (hphase : s.phase q = φ) : StandsAt (some u) φ := by
  have hq := hinv.stands q
  rwa [hu, hphase] at hq

/-- A step that moves the thread of `p` only. -/
theorem Standing.move {x : Option User} {φ : LoginPhase} (hinv : Standing s)
    (hsock : UserList.SockUnique s'.users) (hx : s'.users.get? p = x) (hφ : s'.phase p = φ)
    (hself : StandsAt x φ) (husers : ∀ q, q ≠ p → s'.users.get? q = s.users.get? q)
    (hphase : ∀ q, q ≠ p → s'.phase q = s.phase q) : Standing s' := by
  refine ⟨hsock, fun q => ?_⟩
  by_cases hqp : q = p
  · rw [hqp, hx, hφ]
    exact hself
  · rw [husers q hqp, hphase q hqp]
    exact hinv.stands q

theorem standing_init : Standing Chat.init :=
  ⟨fun p q u v hu => by simp [Chat.init] at hu, fun _ => rfl⟩

theorem standing_step (hinv : Standing s) (hstep : ChatStep s act s') : Standing s' := by
  have hsock := chatStep_sockUnique hinv.sockUnique hstep
  cases hstep with
  | @connect p thread sock hp hnone =>
      have hidle : s.phase p = .idle := by
        have hstands := hinv.stands p
        rwa [Table.get?_eq_none_iff.mpr hp] at hstands
      refine hinv.move (p := p) (x := some (User.fresh thread sock)) hsock ?_ hidle trivial
        (fun q hqp => ?_) (fun _ _ => rfl)
      · rw [Table.get?_append, if_pos rfl]
      · rw [Table.get?_append, if_neg hqp]
  | rejected => exact hinv
  | @scan p u f env hu hidle hacc =>
      have hpos := Frame.announced_receivedLogin hacc.1
      have hsize := Frame.loginSize_eq hacc.1
      refine hinv.move hsock hu (Function.update_self ..) ?_ (fun _ _ => rfl)
        (fun q hqp => Function.update_of_ne hqp _ _)
      show loginSize f.announced ≠ 0
      omega
  | @write p name size hphase =>
      obtain ⟨u, hu⟩ := hinv.exists_entry (q := p) (by rw [hphase]; simp)
      refine hinv.move (x := some (u.login name size)) hsock ?_ (Function.update_self ..) rfl
        (fun q hqp => Table.get?_modify_of_ne hqp _) (fun q hqp => Function.update_of_ne hqp _ _)
      rw [Table.get?_modify_self, hu]
      rfl
  | @announce p u now bus o hu hphase hbus =>
      have hin : u.loggedIn = true := hinv.at hu hphase
      exact hinv.move hsock hu (Function.update_self ..) hin (fun _ _ => rfl)
        (fun q hqp => Function.update_of_ne hqp _ _)
  | @snapshot p now hphase hcall =>
      obtain ⟨u, hu⟩ := hinv.exists_entry (q := p) (by rw [hphase]; simp)
      exact hinv.move hsock hu (Function.update_self ..) trivial (fun _ _ => rfl)
        (fun q hqp => Function.update_of_ne hqp _ _)
  | say => exact ⟨hsock, hinv.stands⟩
  | bus => exact ⟨hsock, hinv.stands⟩
  | @logout p u hu hidle =>
      refine hinv.move (x := some u.logout) hsock ?_ (Function.update_self ..) rfl
        (fun q hqp => Table.get?_modify_of_ne hqp _) (fun q hqp => Function.update_of_ne hqp _ _)
      rw [Table.get?_modify_self, hu]
      rfl
  | @notify p u reason now hu hphase =>
      have hout : u.loggedIn = false := hinv.at hu hphase
      exact hinv.move hsock hu (Function.update_self ..) hout (fun _ _ => rfl)
        (fun q hqp => Function.update_of_ne hqp _ _)
  | @remove p u hu hphase =>
      have hrm := congrArg Prod.snd (UserList.removeUser_of_sockUnique hinv.sockUnique hu)
      refine hinv.move (p := p) (x := none) hsock ?_ (Function.update_self ..) rfl
        (fun q hqp => ?_) (fun q hqp => Function.update_of_ne hqp _ _)
      · simp only [hrm, Table.get?_erase, if_pos]
      · simp only [hrm, Table.get?_erase, if_neg hqp]

theorem run_standing {G : Guard Chat ChatAct RelayOut} {h : RelayHistory}
    (hrun : Run relayMachine G h s) : Standing s :=
  hrun.invariant (I := fun _ s => Standing s) standing_init
    fun _ _ _ _ _ hinv _ hstep => standing_step hinv (relayStep_inv hstep).1

/-! ## Coming and going -/

/-- `p` has no entry that is logged in. -/
def Absent (s : Chat) (p : UserPtr) : Prop := ∀ u, s.users.get? p = some u → u.loggedIn = false

/-- Only `logout_user` takes a client out. -/
theorem present_step (hinv : Standing s) (hstep : ChatStep s act s')
    (hu : s.users.get? p = some u) (hin : u.loggedIn = true) (hno : act ≠ .logout p) :
    ∃ u', s'.users.get? p = some u' ∧ u'.loggedIn = true := by
  cases hstep with
  | @connect q thread sock hq hnone =>
      have hpq : p ≠ q := by
        rintro rfl
        exact hq (Table.mem_keys_iff.mpr ⟨u, hu⟩)
      exact ⟨u, by rw [Table.get?_append, if_neg hpq, hu], hin⟩
  | @write q name size hphase =>
      by_cases hpq : p = q
      · subst hpq
        exact ⟨u.login name size, by simp [hu], rfl⟩
      · exact ⟨u, by rw [Table.get?_modify_of_ne hpq, hu], hin⟩
  | @logout q v hv hidle =>
      have hpq : p ≠ q := by
        rintro rfl
        exact hno rfl
      exact ⟨u, by rw [Table.get?_modify_of_ne hpq, hu], hin⟩
  | @remove q v hv hphase =>
      have hrm := congrArg Prod.snd (UserList.removeUser_of_sockUnique hinv.sockUnique hv)
      have hpq : p ≠ q := by
        rintro rfl
        have hout : u.loggedIn = false := hinv.at hu hphase
        rw [hin] at hout
        cases hout
      exact ⟨u, by rw [hrm, Table.get?_erase, if_neg hpq, hu], hin⟩
  | _ => exact ⟨u, hu, hin⟩

/-! ## Inboxes -/

theorem heard_snapshot (now : UInt64) (l : UserList) (p : UserPtr) :
    heard ((snapshot now l p).map (·.msg)) = [] := by
  refine List.filter_eq_nil_iff.mpr fun m hm => ?_
  simp only [snapshot, List.map_map, List.mem_map] at hm
  obtain ⟨e, -, rfl⟩ := hm
  exact Bool.false_ne_true

/-- Who is logged out or has no entry is sent nothing by a loop that asks. -/
theorem sendAll_of_absent {pick : UserPtr → User → Bool} {m : CombinedMessage}
    (habs : Absent s p) (hpick : ∀ q v, pick q v = true → v.loggedIn = true) :
    Chat.sendAll s.inbox s.users pick m p = s.inbox p := by
  cases hu : s.users.get? p with
  | none => simp [Chat.sendAll, hu]
  | some u =>
      have hnot : pick p u = false := by
        by_contra hyes
        have hin := hpick p u (by simpa using hyes)
        rw [habs u hu] at hin
        cases hin
      rw [Chat.sendAll_of_get? hu, hnot]
      rfl

/-- A step tells an absent client nothing. -/
theorem inbox_step_absent (hinv : Standing s) (hstep : ChatStep s act s') (habs : Absent s p)
    (hno : ∀ thread sock, act ≠ .connect p thread sock) : s'.inbox p = s.inbox p := by
  cases hstep with
  | @connect q thread sock hq hnone =>
      have hpq : p ≠ q := by
        rintro rfl
        exact hno thread sock rfl
      exact Function.update_of_ne hpq _ _
  | @snapshot q now hphase hcall =>
      have hpq : p ≠ q := by
        rintro rfl
        obtain ⟨u, hu⟩ := hinv.exists_entry (q := p) (by rw [hphase]; simp)
        have hin : u.loggedIn = true := hinv.at hu hphase
        rw [habs u hu] at hin
        cases hin
      exact Function.update_of_ne hpq _ _
  | @bus a bus o hget hbus =>
      show deliverTo s o p = s.inbox p
      unfold deliverTo
      split
      · exact sendAll_of_absent habs fun q v hpick => (Bool.and_eq_true_iff.mp hpick).2
      · rfl
  | @notify q v reason now hv hphase =>
      dsimp only
      split
      · exact sendAll_of_absent habs fun q v hpick => (Bool.and_eq_true_iff.mp hpick).1
      · rfl
  | _ => rfl

/-- A step tells a client that is logged in what the agent delivers in it. -/
theorem heard_step_present {h : RelayHistory} (hhanded : Handed h s) (hstep : ChatStep s act s')
    (hu : s.users.get? p = some u) (hin : u.loggedIn = true) :
    heard (s'.inbox p) =
      heard (s.inbox p) ++ chatsOf (relayOut s act).delivered?.toList := by
  have hkept : (relayOut s act).delivered? = none → s'.inbox p = s.inbox p →
      heard (s'.inbox p) = heard (s.inbox p) ++ chatsOf (relayOut s act).delivered?.toList := by
    intro hnone hsame
    rw [hnone, hsame]
    exact (List.append_nil _).symm
  cases hstep with
  | @connect q thread sock hq hnone =>
      have hpq : p ≠ q := by
        rintro rfl
        exact hq (Table.mem_keys_iff.mpr ⟨u, hu⟩)
      exact hkept rfl (Function.update_of_ne hpq _ _)
  | @snapshot q now hphase hcall =>
      by_cases hpq : p = q
      · subst hpq
        dsimp only
        rw [Function.update_self, heard_append, heard_snapshot]
        rfl
      · exact hkept rfl (Function.update_of_ne hpq _ _)
  | @announce q v now bus o hv hphase hbus =>
      exact hkept (by simp [relayOut, hv, RelayOut.delivered?]) rfl
  | @say q v f now bus o hv hidle hcode hbus =>
      exact hkept (by simp [relayOut, hv, RelayOut.delivered?]) rfl
  | @bus a bus o hget hbus =>
      by_cases hdeliver : a = .deliver
      · subst hdeliver
        obtain ⟨-, -, -, -, rfl⟩ := broadcastStep_deliver hbus
        rcases Option.eq_none_or_eq_some s.bus.buffer with hbuffer | ⟨m, hbuffer⟩
        · exact hkept (by simp [relayOut, hbuffer, RelayOut.delivered?])
            (by simp [deliverTo, hbuffer])
        · -- The sender of a queued message is nobody, so nobody is passed over.
          have hsender := (hhanded m (.inl hbuffer)).1
          have hout : (relayOut s (.bus .deliver)).delivered? = some m := by
            simp [relayOut, hbuffer, RelayOut.delivered?]
          have hinbox : deliverTo s (.delivered s.bus.buffer) p = s.inbox p ++ [m.msg] := by
            rw [hbuffer, deliverTo, Chat.sendAll_of_get? hu, if_pos (by simp [hsender, hin])]
          rw [hout]
          dsimp only
          rw [hinbox, heard_append]
          rfl
      · refine hkept ?_ ?_
        · by_cases hsend : ∃ c, a = .send c
          · obtain ⟨c, rfl⟩ := hsend
            obtain ⟨m, hcall, -⟩ := broadcastStep_send hbus
            simp [relayOut, hcall, RelayOut.delivered?]
          · rw [relayOut_other (fun c hc => hsend ⟨c, hc⟩) hdeliver]
            rfl
        · dsimp only
          unfold deliverTo
          split
          · rename_i m
            exact absurd rfl (broadcastStep_undelivered hbus hdeliver (some m))
          · rfl
  | @notify q v reason now hv hphase =>
      have hquiet : (relayOut s (.notify q reason now)).delivered? = none := rfl
      rw [hquiet]
      dsimp only
      split
      · rw [Chat.sendAll_of_get? hu]
        split
        · -- A `UserRemove` is no chat message.
          rw [heard_append]
          rfl
        · exact (List.append_nil _).symm
      · exact (List.append_nil _).symm
  | _ => exact hkept rfl rfl

/-- An inbox is emptied by a new connection, kept, or takes what the agent delivers. -/
theorem heard_step {h : RelayHistory} (hinv : Standing s) (hhanded : Handed h s)
    (hstep : ChatStep s act s') (p : UserPtr) :
    s'.inbox p = [] ∨ heard (s'.inbox p) = heard (s.inbox p) ∨
      heard (s'.inbox p) =
        heard (s.inbox p) ++ chatsOf (relayOut s act).delivered?.toList := by
  by_cases habs : Absent s p
  · by_cases hconn : ∃ thread sock, act = .connect p thread sock
    · obtain ⟨thread, sock, rfl⟩ := hconn
      cases hstep with
      | connect => exact .inl (Function.update_self ..)
    · have hsame := inbox_step_absent hinv hstep habs fun thread sock heq =>
        hconn ⟨thread, sock, heq⟩
      exact .inr (.inl (by rw [hsame]))
  · obtain ⟨u, hu, hin⟩ : ∃ u, s.users.get? p = some u ∧ u.loggedIn = true := by
      by_contra hno
      refine habs fun u hu => ?_
      by_contra hin
      exact hno ⟨u, hu, by simpa using hin⟩
    exact .inr (.inr (heard_step_present hhanded hstep hu hin))

/-! ## What outputs say of the state -/

end LinuxChat
