import LinuxChat.Logic.ChatStep
import LinuxChat.Logic.Notices

/-!
# Threads and their entries

Where every connection logs in once, the position of a thread says what its
entry is: new up to `login_User`, logged in up to `logout_user`, logged out
after it (`Seated`). A new entry has an empty name and was sent nothing.
-/

namespace LinuxChat

open CMem Trace

/-! ## The loops that send -/

theorem Chat.sendAll_of_get? {inbox : UserPtr → List CombinedMessage} {l : UserList}
    {pick : UserPtr → User → Bool} {m : CombinedMessage} {q : UserPtr} {u : User}
    (hu : l.get? q = some u) :
    Chat.sendAll inbox l pick m q = if pick q u then inbox q ++ [m] else inbox q := by
  simp only [Chat.sendAll, hu]

/-- Who is not logged in is sent nothing. -/
theorem deliverTo_of_loggedOut {s : Chat} {q : UserPtr} {u : User} (hu : s.users.get? q = some u)
    (hout : u.loggedIn = false) (o : BroadcastOut QueueMessage) :
    deliverTo s o q = s.inbox q := by
  unfold deliverTo
  split
  · rw [Chat.sendAll_of_get? hu, hout, Bool.and_false]
    rfl
  · rfl

/-! ## Seats -/

/-- Every accepted login is the first of its connection, and its name fits into `login_name`. -/
def firstLogins : Guard Chat ChatAct Unit := fun _ s act =>
  match act with
  | .scan p f env => AcceptedLogin s.users f env →
      f.announced ≤ 36 ∧ ∀ u ∈ s.users.get? p, u.loggedIn = false
  | _ => True

/-- An entry nobody has logged in on. -/
structure NewEntry (u : User) (inbox : List CombinedMessage) : Prop where
  offline : u.loggedIn = false
  nameless : u.name = Buf.zero netNameLenPlus
  unsent : inbox = []

/-- The entry of a thread at a position. -/
def SeatedAt (u : User) (inbox : List CombinedMessage) : LoginPhase → Prop
  | .idle => u.loggedIn = true ∨ NewEntry u inbox
  | .checked _ size => NewEntry u inbox ∧ size ≠ 0 ∧ size ≤ netNameLen
  | .written | .announcing => u.loggedIn = true
  | .loggedOut | .notified => u.loggedIn = false

/-- A place in the list: an entry that fits its thread, or none and no thread. -/
def SeatedIn (s : Chat) (q : UserPtr) : Prop :=
  match s.users.get? q with
  | some u => StoredName u ∧ SeatedAt u (s.inbox q) (s.phase q)
  | none => s.phase q = .idle

/-- Every entry has a thread in the phase that its flags tell of, and no two have a socket. -/
structure Seated (s : Chat) : Prop where
  sockUnique : UserList.SockUnique s.users
  seat : ∀ q, SeatedIn s q

variable {s s' : Chat} {p q : UserPtr} {u : User}

theorem seatedIn_of_some (hu : s.users.get? q = some u) :
    SeatedIn s q ↔ StoredName u ∧ SeatedAt u (s.inbox q) (s.phase q) := by
  simp only [SeatedIn, hu]

theorem seatedIn_of_none (hu : s.users.get? q = none) : SeatedIn s q ↔ s.phase q = .idle := by
  simp only [SeatedIn, hu]

theorem Seated.stored (hinv : Seated s) (hu : s.users.get? q = some u) : StoredName u :=
  ((seatedIn_of_some hu).mp (hinv.seat q)).1

theorem Seated.placed (hinv : Seated s) (hu : s.users.get? q = some u) :
    SeatedAt u (s.inbox q) (s.phase q) :=
  ((seatedIn_of_some hu).mp (hinv.seat q)).2

/-- A thread that is not between two frames has an entry. -/
theorem Seated.exists_entry (hinv : Seated s) (hphase : s.phase q ≠ .idle) :
    ∃ u, s.users.get? q = some u := by
  cases hu : s.users.get? q with
  | none => exact absurd ((seatedIn_of_none hu).mp (hinv.seat q)) hphase
  | some u => exact ⟨u, rfl⟩

/-- Only a new entry depends on what it was sent. -/
theorem SeatedAt.inbox {inbox inbox' : List CombinedMessage} {φ : LoginPhase}
    (h : SeatedAt u inbox φ) (hsame : u.loggedIn = false → inbox' = inbox) :
    SeatedAt u inbox' φ := by
  -- A new entry is not logged in, so it was sent nothing.
  have hnew : NewEntry u inbox → NewEntry u inbox' := fun hn => by
    rw [hsame hn.offline]
    exact hn
  cases φ with
  | idle => exact h.imp id hnew
  | checked name size => exact ⟨hnew h.1, h.2⟩
  | _ => exact h

/-- A step that leaves the place of `q` alone, messages to it while it is logged in aside. -/
structure Unmoved (s s' : Chat) (q : UserPtr) : Prop where
  user : s'.users.get? q = s.users.get? q
  phase : s'.phase q = s.phase q
  inbox : ∀ u, s.users.get? q = some u → u.loggedIn = false → s'.inbox q = s.inbox q

theorem Unmoved.seatedIn (h : Unmoved s s' q) (hseat : SeatedIn s q) : SeatedIn s' q := by
  cases hu : s.users.get? q with
  | none =>
      rw [seatedIn_of_none hu] at hseat
      rw [seatedIn_of_none (h.user.trans hu), h.phase, hseat]
  | some u =>
      rw [seatedIn_of_some hu] at hseat
      rw [seatedIn_of_some (h.user.trans hu), h.phase]
      exact ⟨hseat.1, hseat.2.inbox (h.inbox u hu)⟩

/-- A step that moves the thread of `p` only. -/
theorem Seated.move (hinv : Seated s) (hsock : UserList.SockUnique s'.users)
    (hothers : ∀ q, q ≠ p → Unmoved s s' q) (hself : SeatedIn s' p) : Seated s' := by
  refine ⟨hsock, fun q => ?_⟩
  by_cases hqp : q = p
  · exact hqp ▸ hself
  · exact (hothers q hqp).seatedIn (hinv.seat q)

/-- A step that takes the thread of `p` to its next position and leaves the entries alone. -/
theorem Seated.advance (hinv : Seated s) {φ : LoginPhase} (hu : s.users.get? p = some u)
    (husers : s'.users = s.users) (hphase : s'.phase = Function.update s.phase p φ)
    (hinbox : ∀ q v, q ≠ p → s.users.get? q = some v → v.loggedIn = false →
      s'.inbox q = s.inbox q)
    (hseat : SeatedAt u (s'.inbox p) φ) : Seated s' := by
  refine hinv.move (p := p) (husers ▸ hinv.sockUnique) (fun q hqp => ⟨?_, ?_, ?_⟩) ?_
  · rw [husers]
  · rw [hphase, Function.update_of_ne hqp]
  · exact fun v hv hout => hinbox q v hqp hv hout
  · rw [seatedIn_of_some (husers ▸ hu), hphase, Function.update_self]
    exact ⟨hinv.stored hu, hseat⟩

theorem seated_init : Seated Chat.init :=
  ⟨fun p q u v hu => by simp [Chat.init] at hu, fun q => (seatedIn_of_none rfl).mpr rfl⟩

theorem seated_step {h : History ChatAct Unit} {act : ChatAct} (hinv : Seated s)
    (hg : firstLogins h s act) (hstep : ChatStep s act s') : Seated s' := by
  have hsock := chatStep_sockUnique hinv.sockUnique hstep
  cases hstep with
  | @connect p thread sock hp hnone =>
      have hidle : s.phase p = .idle :=
        (seatedIn_of_none (Table.get?_eq_none_iff.mpr hp)).mp (hinv.seat p)
      refine hinv.move hsock (p := p) (fun q hqp => ⟨?_, rfl, fun _ _ _ => ?_⟩) ?_
      · rw [Table.get?_append, if_neg hqp]
      · exact Function.update_of_ne hqp _ _
      · rw [seatedIn_of_some (u := User.fresh thread sock) (by rw [Table.get?_append, if_pos rfl])]
        refine ⟨storedName_fresh thread sock, ?_⟩
        dsimp only
        rw [hidle]
        exact .inr ⟨rfl, rfl, Function.update_self ..⟩
  | rejected => exact hinv
  | @scan p u f env hu hidle hacc =>
      obtain ⟨hfit, hfirst⟩ := hg hacc
      have hseat := hinv.placed hu
      rw [hidle.1] at hseat
      have hann := Frame.announced_receivedLogin hacc.1
      have hsize := Frame.loginSize_eq hacc.1
      refine hinv.advance hu rfl rfl (fun _ _ _ _ _ => rfl) ⟨hseat.resolve_left ?_, ?_, ?_⟩
      · simp [hfirst u hu]
      · omega
      · unfold netNameLen; omega
  | @write p name size hphase =>
      obtain ⟨u, hu⟩ := hinv.exists_entry (q := p) (by rw [hphase]; simp)
      have hseat := hinv.placed hu
      rw [hphase] at hseat
      obtain ⟨hnew, hpos, hfit⟩ := hseat
      refine hinv.move hsock (p := p) (fun q hqp => ⟨?_, ?_, fun _ _ _ => rfl⟩) ?_
      · exact Table.get?_modify_of_ne hqp _
      · exact Function.update_of_ne hqp _ _
      · rw [seatedIn_of_some (u := u.login name size) (by simp [hu])]
        refine ⟨storedName_login hnew.nameless hpos hfit, ?_⟩
        dsimp only
        rw [Function.update_self]
        rfl
  | @announce p u now bus o hu hphase hbus =>
      have hseat := hinv.placed hu
      rw [hphase] at hseat
      exact hinv.advance (φ := .announcing) hu rfl rfl (fun _ _ _ _ _ => rfl) hseat
  | @snapshot p now hphase hcall =>
      obtain ⟨u, hu⟩ := hinv.exists_entry (q := p) (by rw [hphase]; simp)
      have hseat := hinv.placed hu
      rw [hphase] at hseat
      exact hinv.advance (φ := .idle) hu rfl rfl
        (fun q _ hqp _ _ => Function.update_of_ne hqp _ _) (.inl hseat)
  | say =>
      exact ⟨hsock, fun q => Unmoved.seatedIn ⟨rfl, rfl, fun _ _ _ => rfl⟩ (hinv.seat q)⟩
  | @bus a bus o _ hbus =>
      exact ⟨hsock, fun q => Unmoved.seatedIn (s := s)
        ⟨rfl, rfl, fun u hu hout => deliverTo_of_loggedOut hu hout o⟩ (hinv.seat q)⟩
  | @logout p u hu hidle =>
      refine hinv.move hsock (p := p) (fun q hqp => ⟨?_, ?_, fun _ _ _ => rfl⟩) ?_
      · exact Table.get?_modify_of_ne hqp _
      · exact Function.update_of_ne hqp _ _
      · rw [seatedIn_of_some (u := u.logout) (by simp [hu])]
        refine ⟨(hinv.stored hu).logout, ?_⟩
        dsimp only
        rw [Function.update_self]
        rfl
  | @notify p u reason now hu hphase =>
      have hseat := hinv.placed hu
      rw [hphase] at hseat
      refine hinv.advance (φ := .notified) hu rfl rfl (fun q v _ hv hout => ?_) hseat
      dsimp only
      split
      · rw [Chat.sendAll_of_get? hv, hout, Bool.false_and]
        rfl
      · rfl
  | @remove p u hu hphase =>
      have hrm := congrArg Prod.snd (UserList.removeUser_of_sockUnique hinv.sockUnique hu)
      refine hinv.move hsock (p := p) (fun q hqp => ⟨?_, ?_, fun _ _ _ => rfl⟩) ?_
      · simp only [hrm, Table.get?_erase, if_neg hqp]
      · exact Function.update_of_ne hqp _ _
      · rw [seatedIn_of_none (by simp only [hrm, Table.get?_erase, if_pos])]
        exact Function.update_self ..

end LinuxChat
