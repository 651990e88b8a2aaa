import LinuxChat.Logic.BroadcastStep
import LinuxChat.Logic.FrameStep
import LinuxChat.Model.Chat

/-!
# What a step of a thread does

One constructor for each step of a login, of a departure and of the agent,
with its guard and the state it leaves. The invariants over interleavings are
case analyses of this relation.
-/

namespace LinuxChat

open CMem Trace

/-- The steps of `chatStep`. -/
inductive ChatStep (s : Chat) : ChatAct → Chat → Prop
  | connect {p thread sock} (hp : p ∉ s.users.keys) : s.users.findUser sock = none →
      ChatStep s (.connect p thread sock)
        { s with
          users := s.users.append p (User.fresh thread sock) hp
          inbox := Function.update s.inbox p [] }
  | rejected {p f env} : ¬ AcceptedLogin s.users f env → ChatStep s (.scan p f env) s
  | scan {p u f env} : s.users.get? p = some u → s.Idle p → AcceptedLogin s.users f env →
      ChatStep s (.scan p f env)
        { s with
          phase := Function.update s.phase p
            (.checked (loginMem env f.msg f.announced) (loginSize f.announced)) }
  | write {p name size} : s.phase p = .checked name size →
      ChatStep s (.write p)
        { s with
          users := s.users.modify p fun u => u.login name size
          phase := Function.update s.phase p .written }
  | announce {p u now bus o} : s.users.get? p = some u → s.phase p = .written →
      broadcastStep s.bus (.getattr p ⟨none, (loginNotice now u).msg⟩) = some (bus, o) →
      ChatStep s (.announce p now)
        { s with bus, phase := Function.update s.phase p .announcing }
  | snapshot {p now} : s.phase p = .announcing → s.bus.callers p = none →
      ChatStep s (.snapshot p now)
        { s with
          phase := Function.update s.phase p .idle
          inbox := Function.update s.inbox p
            (s.inbox p ++ (snapshot now s.users p).map (·.msg)) }
  | say {p u f now bus o} : s.users.get? p = some u → s.Idle p → f.code = .receivedMessage →
      broadcastStep s.bus (.getattr p ⟨none,
        (buildServerToClient f.msg now f.announced u.name.bytes u.nameLength).msg⟩) =
          some (bus, o) →
      ChatStep s (.say p f now) { s with bus }
  | bus {a bus o} : (∀ c m, a ≠ .getattr c m) → broadcastStep s.bus a = some (bus, o) →
      ChatStep s (.bus a) { s with bus, inbox := deliverTo s o }
  | logout {p u} : s.users.get? p = some u → s.Idle p →
      ChatStep s (.logout p)
        { s with
          users := s.users.modify p User.logout
          phase := Function.update s.phase p .loggedOut }
  | notify {p u reason now} : s.users.get? p = some u → s.phase p = .loggedOut →
      ChatStep s (.notify p reason now)
        { s with
          phase := Function.update s.phase p .notified
          inbox :=
            if u.nameLength ≠ 0 then
              Chat.sendAll s.inbox s.users (fun q v => v.loggedIn && q ≠ p)
                (teardownNotice now .zero reason u).msg
            else s.inbox }
  | remove {p u} : s.users.get? p = some u → s.phase p = .notified →
      ChatStep s (.remove p)
        { s with
          users := (s.users.removeUser u.sock).2
          phase := Function.update s.phase p .idle }

theorem chatStep_inv {s s' : Chat} {act : ChatAct} {o : Unit}
    (hstep : chatStep s act = some (s', o)) : ChatStep s act s' := by
  cases act with
  | connect p thread sock =>
      simp only [chatStep] at hstep
      split at hstep
      · cases hstep
      · rename_i hp
        cases hsock : s.users.findUser sock with
        | some q => simp [hsock] at hstep
        | none =>
            simp only [hsock, UserList.createUser, Option.isSome_none, Bool.false_eq_true,
              if_false, Option.some.injEq, Prod.mk.injEq] at hstep
            obtain ⟨rfl, -⟩ := hstep
            exact .connect hp hsock
  | scan p f env =>
      simp only [chatStep, f.received_eq] at hstep
      split at hstep
      · rename_i hp
        obtain ⟨u, hu⟩ := Table.mem_keys_iff.mp hp.2
        split at hstep
        · rename_i hcode
          simp only [Received.frame.injEq] at hcode
          obtain ⟨-, hcode, rfl, -⟩ := hcode
          split at hstep
          · rename_i hresp
            cases hstep
            exact .scan hu hp.1 ⟨hcode, hresp⟩
          · rename_i hresp
            cases hstep
            exact .rejected fun hacc => hresp hacc.2
        · cases hstep
      · cases hstep
  | write p =>
      simp only [chatStep] at hstep
      split at hstep
      · rename_i name size hphase
        cases hstep
        exact .write hphase
      · cases hstep
  | announce p now =>
      simp only [chatStep] at hstep
      split at hstep
      · rename_i u hu hphase
        rw [Option.map_eq_some_iff] at hstep
        obtain ⟨⟨bus, o⟩, hbus, heq⟩ := hstep
        cases heq
        exact .announce hu hphase hbus
      · cases hstep
  | snapshot p now =>
      simp only [chatStep] at hstep
      split at hstep
      · rename_i hphase hcall
        cases hstep
        exact .snapshot hphase hcall
      · cases hstep
  | say p f now =>
      simp only [chatStep, f.received_eq] at hstep
      split at hstep
      · rename_i u hu hcode
        simp only [Received.frame.injEq] at hcode
        obtain ⟨-, hcode, rfl, -⟩ := hcode
        split at hstep
        · rename_i hidle
          rw [Option.map_eq_some_iff] at hstep
          obtain ⟨⟨bus, o⟩, hbus, heq⟩ := hstep
          cases heq
          exact .say hu hidle hcode hbus
        · cases hstep
      · cases hstep
  | bus a =>
      have hget : ∀ c m, a ≠ .getattr c m := by
        rintro c m rfl
        cases hstep
      -- Every other action has the same body; the match has to be split to see it.
      have hmap : (broadcastStep s.bus a).map
          (fun r => ({ s with bus := r.1, inbox := deliverTo s r.2 }, ())) = some (s', o) := by
        cases a <;> first | exact hstep | exact absurd rfl (hget _ _)
      rw [Option.map_eq_some_iff] at hmap
      obtain ⟨⟨bus, o⟩, hbus, heq⟩ := hmap
      cases heq
      exact .bus hget hbus
  | logout p =>
      simp only [chatStep] at hstep
      split at hstep
      · rename_i hp
        obtain ⟨u, hu⟩ := Table.mem_keys_iff.mp hp.2
        cases hstep
        exact .logout hu hp.1
      · cases hstep
  | notify p reason now =>
      simp only [chatStep] at hstep
      split at hstep
      · rename_i u hu hphase
        cases hstep
        exact .notify hu hphase
      · cases hstep
  | remove p =>
      simp only [chatStep] at hstep
      split at hstep
      · rename_i u hu hphase
        cases hstep
        exact .remove hu hphase
      · cases hstep

/-- Sockets stay pairwise distinct. -/
theorem chatStep_sockUnique {s s' : Chat} {act : ChatAct}
    (hs : UserList.SockUnique s.users) (hstep : ChatStep s act s') :
    UserList.SockUnique s'.users := by
  cases hstep with
  | @connect p thread sock hp hsock => exact hs.append (u := User.fresh thread sock) hsock hp
  | @write p name size _ =>
      exact hs.modify (f := fun u => u.login name size) (fun _ => rfl) p
  | logout => exact hs.modify (f := User.logout) (fun _ => rfl) _
  | @remove p u hu _ =>
      rw [UserList.removeUser_of_sockUnique hs hu]
      exact hs.erase p
  | _ => exact hs

end LinuxChat
