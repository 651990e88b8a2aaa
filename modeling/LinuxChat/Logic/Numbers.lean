import LinuxChat.Logic.DescriptorStep

/-!
# Whose number it is

What `close` and `remove_User` leave true while every thread finds its own
entry in `self` and no `/kick` finds its target: every entry is that of a
session that has not ended, and up to the session's own `close` the number in
it belongs to the session's connection.
-/

namespace LinuxChat

open CMem Trace

/-- The steps of the kernel, the sessions and the agent. -/
abbrev FdHistory := History FdAct FdOut

variable {h : FdHistory} {s s' : Descriptors} {a : FdAct} {o : FdOut}

/-! ## Sessions -/

/-- How a step `a` with output `o` takes the session of `c` on. -/
inductive Advance (c : Nat) : FdAct → FdOut → FdPhase → FdPhase → Prop
  | accept {fd} : Advance c (.accept c fd) .quiet .unborn (.accepted fd)
  | start {p thread fd} :
      Advance c (.start c p thread) (.started (some p)) (.accepted fd) (.running p)
  | inUse {p thread fd} : Advance c (.start c p thread) (.started none) (.accepted fd) .unseated
  | logout {p q} : Advance c (.logout c q) .quiet (.running p) (.loggedOut p)
  | notified {a p} : Advance c a .quiet (.loggedOut p) (.notified p)
  | close {p q o} : Advance c (.close c q) o (.notified p) (.closed p)
  | remove {p q} : Advance c (.remove c q) .quiet (.closed p) .gone

/-- A step takes at most one session on. -/
theorem phase_of_step (hstep : FdStep s a s' o) : s'.phase = s.phase ∨
    ∃ c φ, s'.phase = Function.update s.phase c φ ∧ Advance c a o (s.phase c) φ := by
  cases hstep with
  | accept hphase howner => exact .inr ⟨_, _, rfl, hphase ▸ .accept⟩
  | start hp hphase hlock hfind => exact .inr ⟨_, _, rfl, hphase ▸ .start⟩
  | inUse hphase hlock hfind => exact .inr ⟨_, _, rfl, hphase ▸ .inUse⟩
  | logout hphase hfree hq => exact .inr ⟨_, _, rfl, hphase ▸ .logout⟩
  | skipNotice hphase hu hfree hname => exact .inr ⟨_, _, rfl, hphase ▸ .notified⟩
  | close hphase hu hfree => exact .inr ⟨_, _, rfl, hphase ▸ .close⟩
  | remove hphase hu hfree hlock => exact .inr ⟨_, _, rfl, hphase ▸ .remove⟩
  | @finish t l i htask hend =>
      cases t with
      | agent => exact .inl rfl
      | session c =>
          simp only [Descriptors.afterLoop]
          split
          · rename_i p hphase
            exact .inr ⟨c, _, rfl, hphase ▸ .notified⟩
          · exact .inl rfl
  | _ => exact .inl rfl

/-! ## Numbers -/

/-- The name a `/kick` looks for. -/
def FdAct.kickName? : FdAct → Option (List UInt8)
  | kick _ name => some name
  | _ => none

/-- The number the kernel gives a connection. -/
def FdAct.accepted? : FdAct → Option Nat
  | accept _ fd => some fd
  | _ => none

/-- The kernel gives numbers that fit a `u16`, each thread finds its own entry in `self`, and no
`/kick` finds its target. -/
structure Ordinary (s : Descriptors) (a : FdAct) : Prop where
  small : ∀ c fd, a = .accept c fd → fd < 0x10000
  ownSelf : ∀ c q, a.self? = some (c, q) → (s.phase c).user? = some q
  noKick : ∀ c name, a = .kick c name → kickTarget s.users name = none

instance (o : Option (Nat × UserPtr)) (P : Nat → UserPtr → Prop) [∀ c q, Decidable (P c q)] :
    Decidable (∀ c q, o = some (c, q) → P c q) :=
  match o with
  | none => isTrue fun _ _ hnone => by cases hnone
  | some (c, q) => decidable_of_iff (P c q)
      ⟨fun hP _ _ heq => by cases heq; exact hP, fun hP => hP c q rfl⟩

instance (s : Descriptors) (a : FdAct) : Decidable (Ordinary s a) :=
  decidable_of_iff ((a.accepted?.all fun fd => decide (fd < 0x10000)) = true ∧
      (∀ c q, a.self? = some (c, q) → (s.phase c).user? = some q) ∧
      (a.kickName?.all fun name => (kickTarget s.users name).isNone) = true) <| by
    constructor
    · rintro ⟨hsmall, hself, hkick⟩
      refine ⟨?_, hself, ?_⟩
      · rintro c fd rfl
        simpa [FdAct.accepted?] using hsmall
      · rintro c name rfl
        simpa [FdAct.kickName?] using hkick
    · rintro ⟨hsmall, hself, hkick⟩
      refine ⟨?_, hself, ?_⟩
      · cases a with
        | accept c fd => simpa [FdAct.accepted?] using hsmall c fd rfl
        | _ => rfl
      · cases a with
        | kick c name => simpa [FdAct.kickName?] using hkick c name rfl
        | _ => rfl

/-- Numbers, entries and sessions agree. -/
structure NumbersOk (s : Descriptors) : Prop where
  unique : s.users.SockUnique
  accepted : ∀ c fd, s.phase c = .accepted fd → s.owner fd = some c ∧ fd < 0x10000
  entry : ∀ c p, (s.phase c).user? = some p → ∃ u, s.users.get? p = some u ∧ s.conn p = c ∧
    (s.phase c ≠ .closed p → s.owner u.sock = some c)
  session : ∀ p u, s.users.get? p = some u → (s.phase (s.conn p)).user? = some p

theorem numbersOk_init : NumbersOk .init := by
  refine ⟨?_, ?_, ?_, ?_⟩
  · intro p q u v hu
    cases hu
  · intro c fd hc
    cases hc
  · intro c p hp
    cases hp
  · intro p u hu
    cases hu

/-- The entry of a session, and the number in it up to its `close`. -/
theorem NumbersOk.own (hinv : NumbersOk s) {c : Nat} {p : UserPtr} {u : User}
    (hp : (s.phase c).user? = some p) (hu : s.users.get? p = some u) :
    s.conn p = c ∧ (s.phase c ≠ .closed p → s.owner u.sock = some c) := by
  obtain ⟨v, hv, hconn, howner⟩ := hinv.entry c p hp
  rw [hu, Option.some.injEq] at hv
  subst hv
  exact ⟨hconn, howner⟩

/-- The entries change, but not their numbers. -/
theorem NumbersOk.users (hinv : NumbersOk s) {q : UserPtr} {f : User → User}
    (hf : ∀ u, (f u).sock = u.sock) : NumbersOk { s with users := s.users.modify q f } := by
  refine ⟨hinv.unique.modify hf q, hinv.accepted, fun c p hp => ?_, fun p u hu => ?_⟩
  · obtain ⟨u, hu, hconn, howner⟩ := hinv.entry c p hp
    refine ⟨if p = q then f u else u, ?_, hconn, ?_⟩
    · rw [Table.get?_modify, hu]
      split <;> rfl
    · split
      · rw [hf]; exact howner
      · exact howner
  · obtain ⟨v, hv, -⟩ := Table.exists_of_get?_modify hu
    exact hinv.session p v hv

/-- The session of `c` goes on: the other connections keep their numbers, and it keeps its entry,
with its number up to the `close`. -/
theorem NumbersOk.move (hinv : NumbersOk s) {c : Nat} {φ : FdPhase} {owner : Nat → Option Nat}
    (hothers : ∀ c' fd, c' ≠ c → s.owner fd = some c' → owner fd = some c')
    (haccepted : ∀ fd, φ = .accepted fd → owner fd = some c ∧ fd < 0x10000)
    (hentry : φ.user? = (s.phase c).user?)
    (howner : ∀ p u, φ.user? = some p → φ ≠ .closed p → s.users.get? p = some u →
      owner u.sock = some c) :
    NumbersOk { s with owner, phase := Function.update s.phase c φ } := by
  refine ⟨hinv.unique, fun c' fd hc' => ?_, fun c' p hp => ?_, fun p u hu => ?_⟩
  · by_cases hcc : c' = c
    · subst hcc
      simp only [Function.update_self] at hc'
      exact haccepted fd hc'
    · simp only [Function.update_of_ne hcc] at hc'
      obtain ⟨hown, hsmall⟩ := hinv.accepted c' fd hc'
      exact ⟨hothers c' fd hcc hown, hsmall⟩
  · by_cases hcc : c' = c
    · subst hcc
      simp only [Function.update_self] at hp ⊢
      obtain ⟨u, hu, hconn, -⟩ := hinv.entry c' p (hentry ▸ hp)
      exact ⟨u, hu, hconn, fun hopen => howner p u hp hopen hu⟩
    · simp only [Function.update_of_ne hcc] at hp ⊢
      obtain ⟨u, hu, hconn, hown⟩ := hinv.entry c' p hp
      exact ⟨u, hu, hconn, fun hopen => hothers c' _ hcc (hown hopen)⟩
  · have hsession := hinv.session p u hu
    by_cases hcc : s.conn p = c
    · rw [hcc] at hsession
      simp only [hcc, Function.update_self]
      rw [hentry, hsession]
    · simp only [Function.update_of_ne hcc]
      exact hsession

/-- A session goes on with the entry and the number it has. -/
theorem NumbersOk.goOn (hinv : NumbersOk s) {c : Nat} {p : UserPtr} {φ : FdPhase}
    (hold : (s.phase c).user? = some p) (hopen : s.phase c ≠ .closed p)
    (hnew : φ.user? = some p) : NumbersOk { s with phase := Function.update s.phase c φ } := by
  refine hinv.move (fun _ _ _ hown => hown) (fun fd heq => ?_) (hnew.trans hold.symm)
    fun p' u hp' _ hu => ?_
  · rw [heq] at hnew
    cases hnew
  · rw [hnew, Option.some.injEq] at hp'
    subst hp'
    exact (hinv.own hold hu).2 hopen

/-! ## Steps -/

theorem numbersOk_accept {c fd : Nat} (hinv : NumbersOk s) (hphase : s.phase c = .unborn)
    (hclosed : s.owner fd = none) (hsmall : fd < 0x10000) :
    NumbersOk { s with
      owner := Function.update s.owner fd (some c)
      phase := Function.update s.phase c (.accepted fd) } := by
  refine hinv.move (fun c' fd' _ hown => ?_) (fun fd' heq => ?_) (by rw [hphase]; rfl) nofun
  · have hne : fd' ≠ fd := fun heq => by
      rw [heq, hclosed] at hown
      cases hown
    rw [Function.update_of_ne hne]
    exact hown
  · cases heq
    exact ⟨Function.update_self .., hsmall⟩

/-- No entry is that of a session that has not had its `create_User`. -/
theorem NumbersOk.conn_ne (hinv : NumbersOk s) {c fd : Nat} (hphase : s.phase c = .accepted fd)
    {p : UserPtr} {u : User} (hu : s.users.get? p = some u) : s.conn p ≠ c := by
  intro heq
  have hsession := hinv.session p u hu
  rw [heq, hphase] at hsession
  cases hsession

theorem numbersOk_start {c thread fd : Nat} {p : UserPtr} (hinv : NumbersOk s)
    (hp : p ∉ s.users.keys) (hphase : s.phase c = .accepted fd)
    (hfind : s.users.findUser (toU16 fd) = none) :
    NumbersOk { s with
      users := s.users.append p (User.fresh thread (toU16 fd)) hp
      conn := Function.update s.conn p c
      phase := Function.update s.phase c (.running p) } := by
  refine ⟨hinv.unique.append hfind hp, fun c' fd' hc' => ?_, fun c' p' hp' => ?_,
    fun p' u hu => ?_⟩
  · by_cases hcc : c' = c
    · subst hcc
      simp only [Function.update_self] at hc'
      cases hc'
    · simp only [Function.update_of_ne hcc] at hc'
      exact hinv.accepted c' fd' hc'
  · by_cases hcc : c' = c
    · subst hcc
      simp only [Function.update_self, FdPhase.user?, Option.some.injEq] at hp'
      subst hp'
      obtain ⟨hown, hsmall⟩ := hinv.accepted c' fd hphase
      refine ⟨User.fresh thread (toU16 fd), ?_, Function.update_self .., fun _ => ?_⟩
      · rw [Table.get?_append, if_pos rfl]
      · show s.owner (toU16 fd) = some c'
        rw [toU16_of_lt hsmall, hown]
    · simp only [Function.update_of_ne hcc] at hp' ⊢
      obtain ⟨u, hu, hconn, howner⟩ := hinv.entry c' p' hp'
      have hpp : p' ≠ p := fun heq => hp (Table.mem_keys_iff.mpr ⟨u, heq ▸ hu⟩)
      refine ⟨u, ?_, by rw [Function.update_of_ne hpp]; exact hconn, howner⟩
      rw [Table.get?_append, if_neg hpp]
      exact hu
  · rw [Table.get?_append] at hu
    by_cases hpp : p' = p
    · subst hpp
      simp only [Function.update_self]
      rfl
    · rw [if_neg hpp] at hu
      simp only [Function.update_of_ne hpp, Function.update_of_ne (hinv.conn_ne hphase hu)]
      exact hinv.session p' u hu

theorem numbersOk_close {c : Nat} {p : UserPtr} {u : User} (hinv : NumbersOk s)
    (hphase : s.phase c = .notified p) (hu : s.users.get? p = some u) :
    NumbersOk { s with
      owner := Function.update s.owner u.sock none
      phase := Function.update s.phase c (.closed p) } := by
  have hold : (s.phase c).user? = some p := by rw [hphase]; rfl
  have hc := (hinv.own hold hu).2 (by rw [hphase]; exact nofun)
  refine hinv.move (fun c' fd hcc hown => ?_) nofun hold.symm fun p' v hp' hopen => ?_
  · have hne : fd ≠ u.sock := fun heq => by
      rw [heq, hc, Option.some.injEq] at hown
      exact hcc hown.symm
    rw [Function.update_of_ne hne]
    exact hown
  · cases hp'
    exact absurd rfl hopen

theorem numbersOk_remove {c : Nat} {p : UserPtr} {u : User} (hinv : NumbersOk s)
    (hphase : s.phase c = .closed p) (hu : s.users.get? p = some u) :
    NumbersOk { s with
      users := (s.users.removeUser u.sock).2
      phase := Function.update s.phase c .gone } := by
  have hown : (s.phase c).user? = some p := by rw [hphase]; rfl
  obtain ⟨hconn, -⟩ := hinv.own hown hu
  rw [UserList.removeUser_of_sockUnique hinv.unique hu]
  refine ⟨hinv.unique.erase p, fun c' fd hc' => ?_, fun c' p' hp' => ?_, fun p' v hv => ?_⟩
  · have hcc : c' ≠ c := fun heq => by
      subst heq
      simp only [Function.update_self] at hc'
      cases hc'
    simp only [Function.update_of_ne hcc] at hc'
    exact hinv.accepted c' fd hc'
  · have hcc : c' ≠ c := fun heq => by
      subst heq
      simp only [Function.update_self] at hp'
      cases hp'
    simp only [Function.update_of_ne hcc] at hp' ⊢
    obtain ⟨v, hv, hconn', howner'⟩ := hinv.entry c' p' hp'
    have hpp : p' ≠ p := fun heq => hcc (by rw [← hconn', heq, hconn])
    refine ⟨v, ?_, hconn', howner'⟩
    rw [Table.get?_erase, if_neg hpp]
    exact hv
  · rw [Table.get?_erase] at hv
    split at hv
    · cases hv
    · rename_i hpp
      have hsession := hinv.session p' v hv
      have hcc : s.conn p' ≠ c := fun heq => by
        rw [heq, hown, Option.some.injEq] at hsession
        exact hpp hsession.symm
      simp only [Function.update_of_ne hcc]
      exact hsession

/-- The entry in `self` is that of the session. -/
theorem Ordinary.self_eq (hord : Ordinary s a) {c : Nat} {p q : UserPtr}
    (hself : a.self? = some (c, q)) (hp : (s.phase c).user? = some p) : q = p := by
  have hq := hord.ownSelf c q hself
  rw [hp, Option.some.injEq] at hq
  exact hq.symm

/-- A step with `self` at its own entry, and no successful `/kick`. -/
theorem numbersOk_step (hinv : NumbersOk s) (hord : Ordinary s a) (hstep : FdStep s a s' o) :
    NumbersOk s' := by
  cases hstep with
  | accept hphase hclosed => exact numbersOk_accept hinv hphase hclosed (hord.small _ _ rfl)
  | start hp hphase hlock hfind => exact numbersOk_start hinv hp hphase hfind
  | inUse hphase hlock hfind =>
      refine hinv.move (fun _ _ _ hown => hown) nofun (by rw [hphase]; rfl) nofun
  | startNull hphase => exact hinv
  | call hphase hu hfree hk => exact hinv
  | kickNobody hphase hfree hlock hnobody => exact hinv
  | kick hphase hfree hlock htarget =>
      rw [hord.noKick _ _ rfl] at htarget
      cases htarget
  | login hphase hcode hfree hlock hq => exact hinv.users fun u => rfl
  | @logout c q p hphase hfree hq =>
      have hnext : NumbersOk { s with users := s.users.logoutUser q } :=
        hinv.users (f := User.logout) fun u => rfl
      exact hnext.goOn (c := c) (p := p) (by simp only [hphase]; rfl)
        (by simp only [hphase]; exact nofun) rfl
  | skipNotice hphase hu hfree hname =>
      exact hinv.goOn (by rw [hphase]; rfl) (by rw [hphase]; exact nofun) rfl
  | close hphase hu hfree =>
      obtain rfl := hord.self_eq rfl (by rw [hphase]; rfl)
      exact numbersOk_close hinv hphase hu
  | remove hphase hu hfree hlock =>
      obtain rfl := hord.self_eq rfl (by rw [hphase]; rfl)
      exact numbersOk_remove hinv hphase hu
  | @finish t l i htask hend =>
      have hafter : NumbersOk { s with phase := s.afterLoop t } := by
        cases t with
        | agent => exact hinv
        | session c =>
            simp only [Descriptors.afterLoop]
            split
            · rename_i p hphase
              exact hinv.goOn (by rw [hphase]; rfl) (by rw [hphase]; exact nofun) rfl
            · exact hinv
      exact ⟨hafter.unique, hafter.accepted, hafter.entry, hafter.session⟩
  | _ => exact ⟨hinv.unique, hinv.accepted, hinv.entry, hinv.session⟩

/-! ## One `self` -/

/-- The entry the latest `create_User` has returned: the one in `self`. -/
def latestSelf (h : FdHistory) : Option UserPtr :=
  h.foldl (fun self e => match e.2 with | .started r => r | _ => self) none

/-- A thread finds in `self` what the latest session start has stored there. -/
def oneSelf : Guard Descriptors FdAct FdOut := fun h _ a =>
  ∀ c q, a.self? = some (c, q) → latestSelf h = some q

instance (h : FdHistory) (s : Descriptors) (a : FdAct) : Decidable (oneSelf h s a) :=
  inferInstanceAs (Decidable (∀ c q, a.self? = some (c, q) → latestSelf h = some q))

end LinuxChat
