import LinuxChat.Logic.NameEntries

/-!
# The thread names are a map

The calls keep a list with one entry a thread and links that agree, and touch
only the entry of their own thread. The name in an entry is the path of the
last name registered if and only if no name registered for the thread since
its last removal is longer (`isNameMap_iff`): a shorter path is copied over
the old one without a terminator.
-/

namespace LinuxChat

open CMem DList Trace

/-- The list in memory is a map: `next` leads from `firstEntry` over each entry once and then to
null, `prev` from `lastEntry` back over the same entries, and no thread has two. -/
structure IsThreadList (s : ThreadNames) (l : Table EntryPtr ThreadNameMap) : Prop where
  forward : Walk (fun p => s.cells.next (some p)) s.front l.keys
  backward : Walk (fun p => s.cells.prev (some p)) s.back l.keys.reverse
  fields : ∀ p e, l.get? p = some e → (s.cells.get? p).map Cell.data = some e
  once : (l.entries.map fun e => e.2.threadId).Nodup

/-- `f_find_Entry` yields an entry with exactly the path of the name registered last, and NULL if
there is none. -/
structure IsNameMap (h : History ThreadNameAct ThreadNameOut) (s : ThreadNames) : Prop where
  list : ∃ l, IsThreadList s l
  unregistered : ∀ t, registrations h t = [] → s.entryOf t = some none
  registered : ∀ t names name, registrations h t = names ++ [name] →
    ∃ p e, s.entryOf t = some (some (p, e)) ∧ cstr e.name.bytes = logPath name

/-- Allocation succeeds, paths fit into 255 bytes, and only registered threads are removed. -/
def inDomain : Guard ThreadNames ThreadNameAct ThreadNameOut := fun h _ a =>
  match a with
  | .register malloc _ name => malloc.isSome = true ∧ (logPath (cstr name)).length ≤ 255
  | .remove t => registrations h t ≠ []

instance (h : History ThreadNameAct ThreadNameOut) (s : ThreadNames) : (a : ThreadNameAct) →
    Decidable (inDomain h s a)
  | .register .. => inferInstanceAs (Decidable (_ ∧ _))
  | .remove _ => inferInstanceAs (Decidable (_ ≠ _))

/-! ## Runs -/

variable {s s' : ThreadNames} {l : Table EntryPtr ThreadNameMap}
  {h : History ThreadNameAct ThreadNameOut} {a : ThreadNameAct} {out : ThreadNameOut}

/-- An entry has what the registrations of its thread leave, and without them there is none. -/
def HasNames (names : List (List UInt8)) : Option (EntryPtr × ThreadNameMap) → Prop
  | none => names = []
  | some (_, e) => names ≠ [] ∧ e.name.Holds (storedPath names)

/-- The registrations behind one more call. -/
def ThreadNameAct.names (a : ThreadNameAct) (t : Nat) (names : List (List UInt8)) :
    List (List UInt8) :=
  match a with
  | .register _ threadID name => if threadID = t then names ++ [cstr name] else names
  | .remove threadID => if threadID = t then [] else names

/-- The registrations are what the calls have made them. -/
theorem registrations_eq (h : History ThreadNameAct ThreadNameOut) (t : Nat) :
    registrations h t = (h.map Prod.fst).foldl (fun names a => a.names t names) [] := by
  rw [registrations, List.foldl_map]
  refine congrArg (fun f => List.foldl f [] h) ?_
  funext names e
  cases e.1 <;> rfl

theorem registrations_snoc (h : History ThreadNameAct ThreadNameOut) (t : Nat) :
    registrations (h ++ [(a, out)]) t = a.names t (registrations h t) := by
  rw [registrations_eq, registrations_eq, List.map_append, List.foldl_append]
  rfl

theorem hasNames_step (hdomain : inDomain h s a) {old : Option (EntryPtr × ThreadNameMap)}
    {names : List (List UInt8)} (hold : HasNames names old) (t : Nat) :
    HasNames (a.names t names) (a.entry t old) := by
  cases a with
  | register malloc threadID name =>
      obtain ⟨hmalloc, hfit⟩ := hdomain
      by_cases ht : t = threadID
      · subst ht
        rw [ThreadNameAct.names, if_pos rfl]
        cases old with
        | some found =>
            rw [entry_register_some]
            refine ⟨by simp, ?_⟩
            rw [storedPath_snoc, ← newFilename_eq hfit]
            exact holds_setName hold.2 name
        | none =>
            obtain ⟨p, rfl⟩ := Option.isSome_iff_exists.mp hmalloc
            rw [entry_register_none, show names = [] from hold]
            refine ⟨by simp, ?_⟩
            rw [storedPath_snoc, ← newFilename_eq hfit]
            exact holds_setName Buf.holds_zero name
      · rw [entry_of_ne ht, ThreadNameAct.names, if_neg (Ne.symm ht)]
        exact hold
  | remove threadID =>
      by_cases ht : t = threadID
      · subst ht
        rw [entry_remove, ThreadNameAct.names, if_pos rfl]
        rfl
      · rw [entry_of_ne ht, ThreadNameAct.names, if_neg (Ne.symm ht)]
        exact hold

/-- The list is one with an entry a thread, each with what its registrations leave. -/
theorem run_tracks (hrun : Run threadNameMachine inDomain h s) :
    ∃ l, s.Stores l ∧ OneEach l ∧ ∀ t, HasNames (registrations h t) (entryIn l t) := by
  refine hrun.invariant (I := fun h s =>
    ∃ l, s.Stores l ∧ OneEach l ∧ ∀ t, HasNames (registrations h t) (entryIn l t)) ?_ ?_
  · exact ⟨Table.empty, Links.stores_empty, List.nodup_nil, fun t => rfl⟩
  · rintro h s a s' out ⟨l, hs, hl, hnames⟩ hdomain hstep
    obtain ⟨-, l', hs', hl', hentry⟩ := threadNameStep_becomes hs hl hstep
    refine ⟨l', hs', hl', fun t => ?_⟩
    rw [hentry, registrations_snoc]
    exact hasNames_step hdomain (hnames t) t

/-- Pointers that store a table with an entry a thread are such a list. -/
theorem isThreadList (hs : s.Stores l) (hl : OneEach l) : IsThreadList s l where
  forward := by
    rw [hs.front]
    exact hs.linked.walk_next
  backward := by
    rw [hs.back]
    exact hs.linked.walk_prev
  fields p e he := by
    obtain ⟨c, hc, hdata⟩ := hs.linked.exists_cell (Table.get?_eq_some_iff.mp he)
    rw [hc, Option.map_some, hdata]
  once := hl

/-- A thread without a registration has no entry. -/
theorem entryOf_unregistered (hs : s.Stores l) (hl : OneEach l)
    (hnames : ∀ t, HasNames (registrations h t) (entryIn l t)) {t : Nat}
    (hreg : registrations h t = []) : s.entryOf t = some none := by
  have hheld := hnames t
  rw [hreg] at hheld
  rw [entryOf_eq hs hl]
  cases hentry : entryIn l t with
  | none => rfl
  | some found =>
      rw [hentry] at hheld
      exact absurd rfl hheld.1

/-- **The thread names are a map.** After every run of registrations and removals the list has one
entry a registered thread and links that agree, and none for the others; its names are the paths
registered last if and only if no name registered earlier for a thread since its last removal is
longer than its last one; and no call changes the entry of another thread. -/
theorem isNameMap_iff (hrun : Run threadNameMachine inDomain h s) :
    ((∃ l, IsThreadList s l) ∧ ∀ t, registrations h t = [] → s.entryOf t = some none) ∧
    (IsNameMap h s ↔ ∀ t names name, registrations h t = names ++ [name] →
      ∀ n ∈ names, n.length ≤ name.length) ∧
    ∀ {a : ThreadNameAct} {s' : ThreadNames} {out : ThreadNameOut},
      threadNameStep s a = some (s', out) → ∀ t ≠ a.thread, s'.entryOf t = s.entryOf t := by
  obtain ⟨l, hs, hl, hnames⟩ := run_tracks hrun
  have hlist : ∃ l, IsThreadList s l := ⟨l, isThreadList hs hl⟩
  have hnone : ∀ t, registrations h t = [] → s.entryOf t = some none :=
    fun t hreg => entryOf_unregistered hs hl hnames hreg
  refine ⟨⟨hlist, hnone⟩, ⟨?_, ?_⟩, ?_⟩
  · intro hmap t names name hreg
    obtain ⟨p, e, hentry, hpath⟩ := hmap.registered t names name hreg
    rw [entryOf_eq hs hl, Option.some.injEq] at hentry
    have hheld := hnames t
    rw [hentry, hreg] at hheld
    rw [← storedPath_eq_iff, ← hpath]
    exact hheld.2.cstr.symm
  · intro hlongest
    refine ⟨hlist, hnone, fun t names name hreg => ?_⟩
    have hheld := hnames t
    rw [entryOf_eq hs hl]
    cases hentry : entryIn l t with
    | none =>
        rw [hentry, hreg] at hheld
        exact absurd hheld (by simp [HasNames])
    | some found =>
        rw [hentry, hreg] at hheld
        refine ⟨found.1, found.2, rfl, ?_⟩
        rw [hheld.2.cstr]
        exact storedPath_eq_iff.mpr (hlongest t names name hreg)
  · intro a s' out hstep t ht
    obtain ⟨-, l', hs', hl', hentry⟩ := threadNameStep_becomes hs hl hstep
    rw [entryOf_eq hs hl, entryOf_eq hs' hl', hentry, entry_of_ne ht]

/-- `bob` of one thread becomes `alice`; the removal of another thread leaves that alone. -/
theorem isNameMap_longer :
    ∃ h s s' out, Run threadNameMachine inDomain h s ∧ IsNameMap h s ∧
      threadNameStep s (.remove 2) = some (s', out) ∧ s'.entryOf 1 = s.entryOf 1 := by
  obtain ⟨h, s, s', out, hrun, -, hstep, hP⟩ := Run.exists_step_of_replay
    (M := threadNameMachine) (G := inDomain)
    [.register (some 10) 1 (lit "bob"), .register (some 20) 2 (lit "eve"),
      .register (some 30) 1 (lit "alice")] (.remove 2)
    (fun h _ _ _ => decide (h.map Prod.fst = [.register (some 10) 1 (lit "bob"),
      .register (some 20) 2 (lit "eve"), .register (some 30) 1 (lit "alice")]))
    (by decide +kernel)
  have hacts := of_decide_eq_true hP
  have hstep' : threadNameStep s (.remove 2) = some (s', out) := hstep
  refine ⟨h, s, s', out, hrun, (isNameMap_iff hrun).2.1.mpr ?_, hstep',
    (isNameMap_iff hrun).2.2 hstep' 1 (by decide)⟩
  intro t names name hreg n hn
  rw [registrations_eq, hacts] at hreg
  simp only [List.foldl_cons, List.foldl_nil, ThreadNameAct.names] at hreg
  by_cases h1 : 1 = t
  · subst h1
    have hlast : [lit "bob"] ++ [lit "alice"] = names ++ [name] := hreg
    obtain ⟨rfl, hname⟩ := List.append_inj' hlast rfl
    cases hname
    rw [List.mem_singleton.mp hn]
    decide
  · -- The other threads have registered once or never.
    rw [if_neg h1, if_neg h1] at hreg
    have hlen := congrArg List.length hreg
    have hpos := List.length_pos_of_mem hn
    rw [List.length_append, List.length_singleton] at hlen
    split at hlen
    · simp only [List.nil_append, List.length_singleton] at hlen
      omega
    · simp only [List.length_nil] at hlen
      omega

/-- `bob` registered behind `alice` leaves a path that is neither's. -/
theorem not_isNameMap_shorter :
    ∃ h s, Run threadNameMachine inDomain h s ∧
      registrations h 1 = [lit "alice", lit "bob"] ∧
      s.pathOf 1 = some (lit "./logs/bob.logog") ∧ ¬ IsNameMap h s := by
  obtain ⟨h, s, hrun, hP⟩ := Run.exists_of_replay (M := threadNameMachine) (G := inDomain)
    [.register (some 10) 1 (lit "alice"), .register (some 20) 1 (lit "bob")]
    (fun h s => decide (registrations h 1 = [lit "alice", lit "bob"]) &&
      decide (s.pathOf 1 = some (lit "./logs/bob.logog"))) (by decide +kernel)
  rw [Bool.and_eq_true, decide_eq_true_eq, decide_eq_true_eq] at hP
  obtain ⟨hreg, hpath⟩ := hP
  refine ⟨h, s, hrun, hreg, hpath, fun hmap => ?_⟩
  obtain ⟨p, e, hentry, hname⟩ := hmap.registered 1 [lit "alice"] (lit "bob") hreg
  have hpath' : s.pathOf 1 = some (logPath (lit "bob")) := by
    rw [ThreadNames.pathOf, hentry, ← hname]
  rw [hpath] at hpath'
  exact absurd hpath' (by decide)

end LinuxChat
