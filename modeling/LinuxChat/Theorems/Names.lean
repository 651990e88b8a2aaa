import LinuxChat.Logic.ChatStep

/-!
# Unique names

`is_name_free` and `login_User` are two critical sections, and the name that
is stored is not always the one that was checked. Where no two clients have
the same name between check and write, and every login stores the name it
checked, logged-in names and names about to be stored are pairwise distinct
(`SoleNames`).
-/

namespace LinuxChat

open CMem Trace

/-- The login stores the name it checks: the name fits into `login_name` with its NUL, and ends
in front of a NUL of the old name. -/
def StoresCheckedName (u : User) (f : Frame) : Prop :=
  f.announced ≤ 36 ∧ (cstr f.name).length < netNameLen ∧
    ((cstr f.name).length < f.announced - 5 ∨ cstr (u.name.bytes.drop (f.announced - 5)) = [])

instance (u : User) (f : Frame) : Decidable (StoresCheckedName u f) :=
  inferInstanceAs (Decidable (_ ∧ _ ∧ (_ ∨ _)))

/-- Every login that passes the checks stores the name it checks, and no other client is between
check and write with the same name. -/
def soleNames : Guard Chat ChatAct Unit := fun _ s act =>
  match act with
  | .scan p f env => AcceptedLogin s.users f env →
      (∀ u ∈ s.users.get? p, StoresCheckedName u f) ∧
        ∀ q ∈ s.users.keys, q ≠ p → (s.phase q).pending ≠ some (cstr f.name)
  | _ => True

instance (h : History ChatAct Unit) (s : Chat) : (act : ChatAct) → Decidable (soleNames h s act)
  | .scan p f env => inferInstanceAs (Decidable (AcceptedLogin s.users f env →
      (∀ u ∈ s.users.get? p, StoresCheckedName u f) ∧
        ∀ q ∈ s.users.keys, q ≠ p → (s.phase q).pending ≠ some (cstr f.name)))
  | .connect .. => isTrue trivial
  | .write _ => isTrue trivial
  | .announce .. => isTrue trivial
  | .snapshot .. => isTrue trivial
  | .say .. => isTrue trivial
  | .bus _ => isTrue trivial
  | .logout _ => isTrue trivial
  | .notify .. => isTrue trivial
  | .remove _ => isTrue trivial

/-- Logged-in names and names about to be stored are pairwise distinct. -/
structure SoleNames (s : Chat) : Prop where
  sockUnique : UserList.SockUnique s.users
  stored : ∀ p name size, s.phase p = .checked name size →
    ∃ u, s.users.get? p = some u ∧ (u.login name size).cname = cstr (name.take size)
  loggedIn : ∀ p q u v, s.users.get? p = some u → s.users.get? q = some v → u.loggedIn = true →
    v.loggedIn = true → u.cname = v.cname → p = q
  fresh : ∀ p q v, s.users.get? q = some v → v.loggedIn = true →
    (s.phase p).pending ≠ some v.cname
  sole : ∀ p q name, (s.phase p).pending = some name → (s.phase q).pending = some name → p = q

theorem soleNames_init : SoleNames Chat.init := by
  constructor
  · intro p q u v hu
    simp [Chat.init] at hu
  · intro p name size hphase
    simp [Chat.init] at hphase
  · intro p q u v hu
    simp [Chat.init] at hu
  · intro p q v hv
    simp [Chat.init] at hv
  · intro p q name hp
    simp [Chat.init, LoginPhase.pending] at hp

theorem LoginPhase.exists_of_pending {φ : LoginPhase} {name : List UInt8}
    (h : φ.pending = some name) :
    ∃ mem size, φ = .checked mem size ∧ cstr (mem.take size) = name := by
  cases φ with
  | checked mem size => exact ⟨mem, size, rfl, Option.some.inj h⟩
  | _ => cases h

/-- A step that adds no logged-in name and no pending one. -/
theorem SoleNames.shrink {s s' : Chat} (hinv : SoleNames s)
    (hsock : UserList.SockUnique s'.users)
    (husers : ∀ p u', s'.users.get? p = some u' → u'.loggedIn = true →
      ∃ u, s.users.get? p = some u ∧ u.loggedIn = true ∧ u'.cname = u.cname)
    (hphase : ∀ p name size, s'.phase p = .checked name size → s.phase p = .checked name size ∧
      s'.users.get? p = s.users.get? p) : SoleNames s' := by
  have hpending : ∀ p name, (s'.phase p).pending = some name →
      (s.phase p).pending = some name := by
    intro p name hp
    obtain ⟨mem, size, hchecked, hname⟩ := LoginPhase.exists_of_pending hp
    rw [(hphase p mem size hchecked).1, LoginPhase.pending, hname]
  constructor
  · exact hsock
  · intro p name size hchecked
    obtain ⟨hold, hsame⟩ := hphase p name size hchecked
    rw [hsame]
    exact hinv.stored p name size hold
  · intro p q u v hu hv hul hvl hname
    obtain ⟨u₀, hu₀, hul₀, hun⟩ := husers p u hu hul
    obtain ⟨v₀, hv₀, hvl₀, hvn⟩ := husers q v hv hvl
    exact hinv.loggedIn p q u₀ v₀ hu₀ hv₀ hul₀ hvl₀ (by rw [← hun, ← hvn, hname])
  · intro p q v hv hvl hp
    obtain ⟨v₀, hv₀, hvl₀, hvn⟩ := husers q v hv hvl
    exact hinv.fresh p q v₀ hv₀ hvl₀ (hvn ▸ hpending p _ hp)
  · intro p q name hp hq
    exact hinv.sole p q name (hpending p name hp) (hpending q name hq)

/-- An update to a phase that is no check leaves the checks of the others. -/
theorem checked_of_update {phase : UserPtr → LoginPhase} {p q : UserPtr} {φ : LoginPhase}
    {name : List UInt8} {size : Nat} (hφ : φ.pending = none)
    (h : Function.update phase p φ q = .checked name size) :
    q ≠ p ∧ phase q = .checked name size := by
  by_cases hq : q = p
  · subst hq
    rw [Function.update_self] at h
    rw [h] at hφ
    cases hφ
  · exact ⟨hq, by rwa [Function.update_of_ne hq] at h⟩

/-- A step that moves one thread to a phase that is no check, and leaves the users alone. -/
theorem SoleNames.advance {s s' : Chat} (hinv : SoleNames s) {p : UserPtr} {φ : LoginPhase}
    (hφ : φ.pending = none) (husers : s'.users = s.users)
    (hphase : s'.phase = Function.update s.phase p φ) : SoleNames s' := by
  refine hinv.shrink (husers ▸ hinv.sockUnique) ?_ ?_
  · intro q u' hu' hin
    exact ⟨u', husers ▸ hu', hin, rfl⟩
  · intro q name size hq
    rw [hphase] at hq
    exact ⟨(checked_of_update hφ hq).2, by rw [husers]⟩

/-- The checks passed: the name is free, and is stored as it was checked. -/
theorem soleNames_scan {s : Chat} (hinv : SoleNames s) {p : UserPtr} {u : User} {f : Frame}
    {env : Env} (hu : s.users.get? p = some u) (hacc : AcceptedLogin s.users f env)
    (hstores : StoresCheckedName u f)
    (hothers : ∀ q ∈ s.users.keys, q ≠ p → (s.phase q).pending ≠ some (cstr f.name)) :
    SoleNames { s with
      phase := Function.update s.phase p
        (.checked (loginMem env f.msg f.announced) (loginSize f.announced)) } := by
  obtain ⟨hfit, hlen, htail⟩ := hstores
  have hsize : loginSize f.announced = f.announced - 5 := Frame.loginSize_eq hacc.1
  have hcopy := Frame.cstr_take_loginMem hacc.1 hfit env
  have hterm := (Frame.loginName_terminated hacc.1 hfit).mpr hlen
  have hmem := Frame.cstr_loginMem hacc.1 hfit hterm env
  -- What was checked is the requested name, as far as `login_name` is terminated.
  have hfree : ∀ q v, s.users.get? q = some v → v.loggedIn = true → v.cname ≠ cstr f.name := by
    rw [← hmem]
    exact UserList.isNameFree_iff.mp (isNameFree_of_success hacc.2)
  have hpending : ∀ q name, (Function.update s.phase p
      (.checked (loginMem env f.msg f.announced) (loginSize f.announced)) q).pending = some name →
      if q = p then name = cstr f.name else (s.phase q).pending = some name := by
    intro q name hq
    by_cases hqp : q = p
    · rw [if_pos hqp]
      rw [hqp, Function.update_self, LoginPhase.pending, hcopy] at hq
      exact (Option.some.inj hq).symm
    · rw [if_neg hqp]
      rwa [Function.update_of_ne hqp] at hq
  -- The guard speaks of entries; a thread between check and write has one.
  have hother : ∀ q, q ≠ p → (s.phase q).pending ≠ some (cstr f.name) := by
    intro q hqp hq
    obtain ⟨mem, size, hchecked, -⟩ := LoginPhase.exists_of_pending hq
    obtain ⟨v, hv, -⟩ := hinv.stored q mem size hchecked
    exact hothers q (Table.mem_keys_iff.mpr ⟨v, hv⟩) hqp hq
  constructor <;> dsimp only
  · exact hinv.sockUnique
  · intro q name size hq
    by_cases hqp : q = p
    · subst hqp
      rw [Function.update_self] at hq
      cases hq
      refine ⟨u, hu, User.cname_login ?_ ?_⟩
      · rw [hsize]; unfold netNameLenPlus; omega
      · rw [hcopy, hsize]
        exact htail
    · rw [Function.update_of_ne hqp] at hq
      exact hinv.stored q name size hq
  · exact hinv.loggedIn
  · intro q r v hv hin hq
    have := hpending q _ hq
    split at this
    · exact hfree r v hv hin this
    · exact hinv.fresh q r v hv hin this
  · intro q r name hq hr
    have hq' := hpending q name hq
    have hr' := hpending r name hr
    split at hq' <;> split at hr'
    · rename_i hqp hrp
      rw [hqp, hrp]
    · rename_i hrp
      exact absurd (hq' ▸ hr') (hother r hrp)
    · rename_i hqp _
      exact absurd (hr' ▸ hq') (hother q hqp)
    · exact hinv.sole q r name hq' hr'

/-- The checked name is written. -/
theorem soleNames_write {s : Chat} (hinv : SoleNames s) {p : UserPtr} {name : List UInt8}
    {size : Nat} (hphase : s.phase p = .checked name size) :
    SoleNames { s with
      users := s.users.modify p fun u => u.login name size
      phase := Function.update s.phase p .written } := by
  obtain ⟨u, hu, hstored⟩ := hinv.stored p name size hphase
  have hpending : (s.phase p).pending = some (cstr (name.take size)) := by rw [hphase]; rfl
  have hget : ∀ q v, (s.users.modify p fun u => u.login name size).get? q = some v →
      if q = p then v.cname = cstr (name.take size) else s.users.get? q = some v := by
    intro q v hv
    rw [Table.get?_modify] at hv
    by_cases hqp : q = p
    · rw [if_pos hqp, hqp, hu] at hv
      rw [if_pos hqp, ← Option.some.inj hv, hstored]
    · rw [if_neg hqp] at hv
      rwa [if_neg hqp]
  constructor <;> dsimp only
  · exact hinv.sockUnique.modify (f := fun u => u.login name size) (fun _ => rfl) p
  · intro q name' size' hq
    obtain ⟨hqp, hq⟩ := checked_of_update rfl hq
    obtain ⟨v, hv, hv'⟩ := hinv.stored q name' size' hq
    exact ⟨v, by rw [Table.get?_modify_of_ne hqp, hv], hv'⟩
  · intro q r v w hv hw hvin hwin hname
    have hv' := hget q v hv
    have hw' := hget r w hw
    split at hv' <;> split at hw'
    · rename_i hqp hrp
      rw [hqp, hrp]
    · refine absurd ?_ (hinv.fresh p r w hw' hwin)
      rw [hpending, ← hv', hname]
    · refine absurd ?_ (hinv.fresh p q v hv' hvin)
      rw [hpending, ← hw', hname]
    · exact hinv.loggedIn q r v w hv' hw' hvin hwin hname
  · intro q r v hv hin hq
    obtain ⟨mem, size', hchecked, -⟩ := LoginPhase.exists_of_pending hq
    have hqp := (checked_of_update rfl hchecked).1
    rw [Function.update_of_ne hqp] at hq
    have hv' := hget r v hv
    split at hv'
    · rw [hv'] at hq
      exact hqp (hinv.sole q p _ hq hpending)
    · exact hinv.fresh q r v hv' hin hq
  · intro q r name' hq hr
    obtain ⟨_, _, hq', -⟩ := LoginPhase.exists_of_pending hq
    obtain ⟨_, _, hr', -⟩ := LoginPhase.exists_of_pending hr
    rw [Function.update_of_ne (checked_of_update rfl hq').1] at hq
    rw [Function.update_of_ne (checked_of_update rfl hr').1] at hr
    exact hinv.sole q r name' hq hr

theorem soleNames_step {h : History ChatAct Unit} {s s' : Chat} {act : ChatAct}
    (hinv : SoleNames s) (hg : soleNames h s act) (hstep : ChatStep s act s') : SoleNames s' := by
  have hsock := chatStep_sockUnique hinv.sockUnique hstep
  cases hstep with
  | @connect p thread sock hp hnone =>
      refine hinv.shrink hsock (fun q u' hu' hin => ?_) (fun q name size hq => ⟨hq, ?_⟩)
      · rw [Table.get?_append] at hu'
        split at hu'
        · cases hu'
          cases hin
        · exact ⟨u', hu', hin, rfl⟩
      · obtain ⟨u, hu, -⟩ := hinv.stored q name size hq
        rw [Table.get?_append, if_neg]
        exact fun hqp => hp (Table.mem_keys_iff.mpr ⟨u, hqp ▸ hu⟩)
  | rejected => exact hinv
  | @scan p u f env hu hidle hacc =>
      obtain ⟨hstores, hothers⟩ := hg hacc
      exact soleNames_scan hinv hu hacc (hstores u hu) hothers
  | write hphase => exact soleNames_write hinv hphase
  | announce hu hphase hbus => exact hinv.advance (φ := .announcing) rfl rfl rfl
  | snapshot hphase hcall => exact hinv.advance (φ := .idle) rfl rfl rfl
  | say => exact hinv.shrink hsock (fun _ u hu hin => ⟨u, hu, hin, rfl⟩) fun _ _ _ hq => ⟨hq, rfl⟩
  | bus => exact hinv.shrink hsock (fun _ u hu hin => ⟨u, hu, hin, rfl⟩) fun _ _ _ hq => ⟨hq, rfl⟩
  | notify hu hphase => exact hinv.advance (φ := .notified) rfl rfl rfl
  | @logout p u hu hidle =>
      refine hinv.shrink hsock (fun q u' hu' hin => ?_) (fun q name size hq => ?_)
      · obtain ⟨v, hv, rfl⟩ := Table.exists_of_get?_modify hu'
        split at hin
        · cases hin
        · rename_i hqp
          exact ⟨v, hv, hin, by rw [if_neg hqp]⟩
      · obtain ⟨hqp, hq⟩ := checked_of_update rfl hq
        exact ⟨hq, Table.get?_modify_of_ne hqp _⟩
  | @remove p u hu hphase =>
      have hrm := congrArg Prod.snd (UserList.removeUser_of_sockUnique hinv.sockUnique hu)
      refine hinv.shrink hsock (fun q u' hu' hin => ?_) (fun q name size hq => ?_)
      · simp only [hrm, Table.get?_erase] at hu'
        split at hu'
        · cases hu'
        · exact ⟨u', hu', hin, rfl⟩
      · obtain ⟨hqp, hq⟩ := checked_of_update rfl hq
        refine ⟨hq, ?_⟩
        simp only [hrm, Table.get?_erase, if_neg hqp]

/-- **Unique names.** In every run in which logins store the names they check and no two clients
are between check and write with one name, different logged-in entries have different names. -/
theorem names_unique {h : History ChatAct Unit} {s : Chat} (hrun : Run chatMachine soleNames h s)
    {p q : UserPtr} (hpq : p ≠ q) {u v : User} (hu : s.users.get? p = some u)
    (hv : s.users.get? q = some v) (hul : u.loggedIn = true) (hvl : v.loggedIn = true) :
    u.cname ≠ v.cname := by
  have hinv : SoleNames s := hrun.invariant (I := fun _ => SoleNames) soleNames_init
    fun _ _ _ _ _ hinv hg hstep => soleNames_step hinv hg (chatStep_inv hstep)
  exact fun hname => hpq (hinv.loggedIn p q u v hu hv hul hvl hname)

/-- Two clients log in, the second while the first is between check and write. -/
theorem names_unique_two :
    ∃ h s u v, Run chatMachine soleNames h s ∧ s.users.get? 1 = some u ∧
      s.users.get? 2 = some v ∧ u.loggedIn = true ∧ v.loggedIn = true ∧ u.cname ≠ v.cname := by
  obtain ⟨h, s, hrun, hP⟩ := Run.exists_of_replay (M := chatMachine) (G := soleNames)
    [.connect 1 1 5, .connect 2 2 6, .scan 1 (.login 8 (lit "bob")) ⟨1, 0, [], []⟩,
      .scan 2 (.login 8 (lit "eve")) ⟨2, 0, [], []⟩, .write 2, .write 1]
    (fun _ s => (s.users.get? 1).any (·.loggedIn) && (s.users.get? 2).any (·.loggedIn))
    (by decide +kernel)
  rw [Bool.and_eq_true, Option.any_eq_true, Option.any_eq_true] at hP
  obtain ⟨⟨u, hu, hul⟩, v, hv, hvl⟩ := hP
  exact ⟨h, s, u, v, hrun, hu, hv, hul, hvl, names_unique hrun (by decide) hu hv hul hvl⟩

/-- Two clients ask for one name; both pass the check before either writes. -/
theorem names_equal_race :
    ∃ h s u v, Run chatMachine anyStep h s ∧ s.users.get? 1 = some u ∧
      s.users.get? 2 = some v ∧ u.loggedIn = true ∧ v.loggedIn = true ∧
      u.cname = lit "bob" ∧ v.cname = lit "bob" := by
  obtain ⟨h, s, hrun, hP⟩ := Run.exists_of_replay (M := chatMachine) (G := anyStep)
    [.connect 1 1 5, .connect 2 2 6, .scan 1 (.login 8 (lit "bob")) ⟨1, 0, [], []⟩,
      .scan 2 (.login 8 (lit "bob")) ⟨2, 0, [], []⟩, .write 2, .write 1]
    (fun _ s => (s.users.get? 1).any (fun u => u.loggedIn && u.cname == lit "bob") &&
      (s.users.get? 2).any (fun u => u.loggedIn && u.cname == lit "bob")) (by decide +kernel)
  rw [Bool.and_eq_true, Option.any_eq_true, Option.any_eq_true] at hP
  obtain ⟨⟨u, hu, hul⟩, v, hv, hvl⟩ := hP
  rw [Bool.and_eq_true, beq_iff_eq] at hul hvl
  exact ⟨h, s, u, v, hrun, hu, hv, hul.1, hvl.1, hul.2, hvl.2⟩

/-- Without a race: `xdmin` asks for `A` and is left with `Admin`, the name of the other. -/
theorem names_equal_tail :
    ∃ h s u v, Run chatMachine anyStep h s ∧ s.users.get? 1 = some u ∧
      s.users.get? 2 = some v ∧ u.loggedIn = true ∧ v.loggedIn = true ∧
      u.cname = lit "Admin" ∧ v.cname = lit "Admin" := by
  obtain ⟨h, s, hrun, hP⟩ := Run.exists_of_replay (M := chatMachine) (G := anyStep)
    [.connect 1 1 5, .scan 1 (.login 10 (lit "xdmin")) ⟨1, 0, [], []⟩, .write 1, .announce 1 0,
      .bus (.test 1), .bus (.send 1), .snapshot 1 0, .connect 2 2 6,
      .scan 2 (.login 10 (lit "Admin")) ⟨2, 0, [], []⟩, .write 2,
      .scan 1 (.login 6 (lit "A")) ⟨1, 0, [], []⟩, .write 1]
    (fun _ s => (s.users.get? 1).any (fun u => u.loggedIn && u.cname == lit "Admin") &&
      (s.users.get? 2).any (fun u => u.loggedIn && u.cname == lit "Admin")) (by decide +kernel)
  rw [Bool.and_eq_true, Option.any_eq_true, Option.any_eq_true] at hP
  obtain ⟨⟨u, hu, hul⟩, v, hv, hvl⟩ := hP
  rw [Bool.and_eq_true, beq_iff_eq] at hul hvl
  exact ⟨h, s, u, v, hrun, hu, hv, hul.1, hvl.1, hul.2, hvl.2⟩

end LinuxChat
