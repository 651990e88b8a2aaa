import LinuxChat.Model.ThreadNames

/-!
# The entries of the threads

On pointers that store a table with at most one entry a thread, every call of
the thread-name list ends, leaves such pointers behind, and does to each entry
what `ThreadNameAct.entry` says: nothing, unless it is the entry of its own
thread. A name is copied over the old one without a terminator, so an entry
holds the overlay of all the paths registered for it (`storedPath`).
-/

namespace LinuxChat

open CMem DList Trace

/-- The path of a name. -/
def logPath (name : List UInt8) : List UInt8 := lit "./logs/" ++ name ++ lit ".log"

/-! ## Entries -/

/-- The entry of a thread in a table. -/
def entryIn (l : Table EntryPtr ThreadNameMap) (t : Nat) : Option (EntryPtr × ThreadNameMap) :=
  l.entries.find? fun e => e.2.threadId = t

/-- No thread has two entries. -/
def OneEach (l : Table EntryPtr ThreadNameMap) : Prop :=
  (l.entries.map fun e => e.2.threadId).Nodup

variable {s s' : ThreadNames} {l : Table EntryPtr ThreadNameMap} {t : Nat} {p : EntryPtr}
  {e : ThreadNameMap}

theorem entryIn_eq_some_iff (hl : OneEach l) :
    entryIn l t = some (p, e) ↔ (p, e) ∈ l.entries ∧ e.threadId = t := by
  constructor
  · intro h
    exact ⟨List.mem_of_find?_eq_some h, by simpa using List.find?_some h⟩
  · rintro ⟨hmem, rfl⟩
    cases hfound : entryIn l e.threadId with
    | none => simpa using List.find?_eq_none.mp hfound (p, e) hmem
    | some e' =>
        have hmem' := List.mem_of_find?_eq_some hfound
        have hthread : e'.2.threadId = e.threadId := by simpa using List.find?_some hfound
        rw [List.inj_on_of_nodup_map hl hmem' hmem hthread]

theorem entryIn_eq_none_iff : entryIn l t = none ↔ ∀ e ∈ l.entries, e.2.threadId ≠ t := by
  simp [entryIn, List.find?_eq_none]

/-- An entry is found in memory just where the table has it. -/
theorem findEntry_eq (hs : s.Stores l) (t : Nat) :
    s.findEntry t = some ((entryIn l t).map Prod.fst) := hs.find _

theorem entryOf_eq (hs : s.Stores l) (hl : OneEach l) (t : Nat) :
    s.entryOf t = some (entryIn l t) := by
  rw [ThreadNames.entryOf, findEntry_eq hs]
  cases hfound : entryIn l t with
  | none => rfl
  | some found =>
      obtain ⟨c, hc, hdata⟩ := hs.linked.exists_cell ((entryIn_eq_some_iff hl).mp hfound).1
      simp [hc, hdata]

/-! ## Calls -/

/-- What a call does to the entry of a thread. -/
def ThreadNameAct.entry (a : ThreadNameAct) (t : Nat) (old : Option (EntryPtr × ThreadNameMap)) :
    Option (EntryPtr × ThreadNameMap) :=
  match a with
  | .register malloc threadID name =>
      if t = threadID then
        match old with
        | some (p, e) => some (p, e.setName (ThreadNames.newFilename name))
        | none => malloc.map fun p =>
            (p, (ThreadNameMap.fresh threadID).setName (ThreadNames.newFilename name))
      else old
  | .remove threadID => if t = threadID then none else old

/-- A call leaves the entries of other threads alone. -/
theorem entry_of_ne {a : ThreadNameAct} {old : Option (EntryPtr × ThreadNameMap)}
    (ht : t ≠ a.thread) : a.entry t old = old := by
  cases a with
  | register malloc threadID name => exact if_neg ht
  | remove threadID => exact if_neg ht

theorem entry_register_some (malloc : Option EntryPtr) (name : List UInt8) :
    (ThreadNameAct.register malloc t name).entry t (some (p, e)) =
      some (p, e.setName (ThreadNames.newFilename name)) := if_pos rfl

theorem entry_register_none (malloc : Option EntryPtr) (name : List UInt8) :
    (ThreadNameAct.register malloc t name).entry t none = malloc.map fun p =>
      (p, (ThreadNameMap.fresh t).setName (ThreadNames.newFilename name)) := if_pos rfl

theorem entry_remove (old : Option (EntryPtr × ThreadNameMap)) :
    (ThreadNameAct.remove t).entry t old = none := if_pos rfl

/-- What a list in memory may become, and its entries with it. -/
def Becomes (l : Table EntryPtr ThreadNameMap) (a : ThreadNameAct)
    (s' : Option ThreadNames) : Prop :=
  ∃ k l', s' = some k ∧ k.Stores l' ∧ OneEach l' ∧ ∀ t, entryIn l' t = a.entry t (entryIn l t)

/-- A call that keeps the entries of the other threads and treats its own as it should. -/
theorem becomes_of_thread {a : ThreadNameAct} {k : ThreadNames} {l' : Table EntryPtr ThreadNameMap}
    (hl : OneEach l) (hk : k.Stores l') (hl' : OneEach l')
    (hothers : ∀ q e', e'.threadId ≠ a.thread → ((q, e') ∈ l'.entries ↔ (q, e') ∈ l.entries))
    (hown : entryIn l' a.thread = a.entry a.thread (entryIn l a.thread)) :
    Becomes l a (some k) := by
  refine ⟨k, l', rfl, hk, hl', ?_⟩
  intro t
  by_cases ht : t = a.thread
  · rw [ht]
    exact hown
  · rw [entry_of_ne ht]
    apply Option.ext
    rintro ⟨q, e'⟩
    rw [entryIn_eq_some_iff hl', entryIn_eq_some_iff hl]
    apply and_congr_left
    intro hthread
    exact hothers q e' (hthread ▸ ht)

/-- The entry of a thread is changed in place. -/
theorem becomes_update (hs : s.Stores l) (hl : OneEach l) (malloc : Option EntryPtr)
    (name : List UInt8) (hfound : entryIn l t = some (p, e)) :
    Becomes l (.register malloc t name)
      (s.update p fun e => e.setName (ThreadNames.newFilename name)) := by
  let f : ThreadNameMap → ThreadNameMap := fun e => e.setName (ThreadNames.newFilename name)
  obtain ⟨hmem, hthread⟩ := (entryIn_eq_some_iff hl).mp hfound
  have hget : l.get? p = some e := Table.get?_eq_some_iff.mpr hmem
  obtain ⟨k, hupdate, hk, -⟩ := hs.update (Table.mem_keys_iff.mpr ⟨e, hget⟩) f
  have hl' : OneEach (l.modify p f) := by
    have hsame : (l.modify p f).entries.map (fun e => e.2.threadId) =
        l.entries.map fun e => e.2.threadId := by
      show (l.entries.map _).map _ = _
      rw [List.map_map]
      refine List.map_congr_left fun e' _ => ?_
      show (if e'.1 = p then (e'.1, f e'.2) else e').2.threadId = e'.2.threadId
      split <;> rfl
    rw [OneEach, hsame]
    exact hl
  have hnew : (l.modify p f).get? p = some (f e) := by
    rw [Table.get?_modify_self, hget, Option.map_some]
  rw [hupdate]
  apply becomes_of_thread hl hk hl'
  · intro q e' hother
    rw [← Table.get?_eq_some_iff, ← Table.get?_eq_some_iff]
    by_cases hq : q = p
    · -- Before and behind the call the entry there is the thread's own.
      rw [hq, hnew, hget, Option.some.injEq, Option.some.injEq]
      constructor
      · rintro rfl
        exact absurd hthread hother
      · rintro rfl
        exact absurd hthread hother
    · rw [Table.get?_modify_of_ne hq]
  · rw [ThreadNameAct.thread, hfound, entry_register_some, entryIn_eq_some_iff hl']
    exact ⟨Table.get?_eq_some_iff.mp hnew, hthread⟩

/-- A thread without an entry gets one at the end. -/
theorem becomes_append (hs : s.Stores l) (hl : OneEach l) (hp : p ∉ s.cells.keys)
    (name : List UInt8) (hfound : entryIn l t = none) :
    Becomes l (.register (some p) t name)
      (s.pushBack p ((ThreadNameMap.fresh t).setName (ThreadNames.newFilename name)) hp) := by
  obtain ⟨k, hpush, hk⟩ := hs.pushBack hp
    ((ThreadNameMap.fresh t).setName (ThreadNames.newFilename name))
  have hno := entryIn_eq_none_iff.mp hfound
  have hl' : OneEach (l.append p ((ThreadNameMap.fresh t).setName
      (ThreadNames.newFilename name)) fun hmem => hp (hs.mem_keys hmem)) := by
    rw [OneEach, Table.entries_append, List.map_append, List.nodup_append]
    refine ⟨hl, by simp, ?_⟩
    intro t₁ ht₁ t₂ ht₂
    obtain ⟨e', he', rfl⟩ := List.mem_map.mp ht₁
    rw [List.map_singleton, List.mem_singleton] at ht₂
    exact ht₂ ▸ hno e' he'
  rw [hpush]
  apply becomes_of_thread hl hk hl'
  · intro q e' hother
    rw [Table.entries_append, List.mem_append, List.mem_singleton]
    apply or_iff_left
    intro heq
    cases heq
    exact hother rfl
  · rw [ThreadNameAct.thread, hfound, entry_register_none, Option.map_some,
      entryIn_eq_some_iff hl', Table.entries_append]
    exact ⟨List.mem_append_right _ (List.mem_singleton_self _), rfl⟩

/-- The entry of a thread is taken out. -/
theorem becomes_remove (hs : s.Stores l) (hl : OneEach l) (hfound : entryIn l t = some (p, e)) :
    Becomes l (.remove t) (s.remove p) := by
  obtain ⟨hmem, hthread⟩ := (entryIn_eq_some_iff hl).mp hfound
  have hget : l.get? p = some e := Table.get?_eq_some_iff.mpr hmem
  obtain ⟨k, hremove, hk⟩ := hs.remove (Table.mem_keys_iff.mpr ⟨e, hget⟩)
  have hl' : OneEach (l.erase p) := hl.sublist (List.filter_sublist.map _)
  rw [hremove]
  apply becomes_of_thread hl hk hl'
  · intro q e' hother
    rw [← Table.get?_eq_some_iff, ← Table.get?_eq_some_iff, Table.get?_erase]
    split
    · -- The entry taken out is the thread's own.
      rename_i hq
      rw [hq, hget, Option.some.injEq]
      constructor
      · intro hnone
        cases hnone
      · rintro rfl
        exact absurd hthread hother
    · rfl
  · rw [ThreadNameAct.thread, entry_remove, entryIn_eq_none_iff]
    rintro ⟨q, e'⟩ he' hsame
    have hleft := Table.get?_eq_some_iff.mpr he'
    rw [Table.get?_erase] at hleft
    split at hleft
    · cases hleft
    · rename_i hq
      have hother := (entryIn_eq_some_iff hl).mpr ⟨Table.get?_eq_some_iff.mp hleft, hsame⟩
      rw [hfound, Option.some.injEq, Prod.mk.injEq] at hother
      exact hq hother.1.symm

/-- A call that changes nothing about its own thread may leave the list as it is. -/
theorem becomes_same {a : ThreadNameAct} (hs : s.Stores l) (hl : OneEach l)
    (hown : a.entry a.thread (entryIn l a.thread) = entryIn l a.thread) :
    Becomes l a (some s) :=
  becomes_of_thread hl hs hl (fun _ _ _ => Iff.rfl) hown.symm

theorem becomes_register (hs : s.Stores l) (hl : OneEach l)
    (malloc : Option { p : EntryPtr // p ∉ s.cells.keys }) (t : Nat) (name : List UInt8) :
    Becomes l (.register (malloc.map Subtype.val) t name)
      (s.registerThreadLogUnderName malloc t name) := by
  unfold ThreadNames.registerThreadLogUnderName ThreadNames.addThreadNameMapping
  rw [findEntry_eq hs]
  cases hfound : entryIn l t with
  | some found => exact becomes_update hs hl _ name hfound
  | none =>
      cases malloc with
      | some newEntry => exact becomes_append hs hl newEntry.2 name hfound
      | none =>
          apply becomes_same hs hl
          rw [Option.map_none, ThreadNameAct.thread, hfound, entry_register_none]
          rfl

theorem becomes_removeEntry (hs : s.Stores l) (hl : OneEach l) (t : Nat) :
    Becomes l (.remove t) (s.removeEntry t) := by
  rw [ThreadNames.removeEntry, findEntry_eq hs]
  cases hfound : entryIn l t with
  | some found => exact becomes_remove hs hl hfound
  | none =>
      apply becomes_same hs hl
      rw [ThreadNameAct.thread, hfound, entry_remove]

/-- A call never faults, and does to each entry what `ThreadNameAct.entry` says. -/
theorem threadNameStep_becomes {a : ThreadNameAct} {out : ThreadNameOut} (hs : s.Stores l)
    (hl : OneEach l) (hstep : threadNameStep s a = some (s', out)) :
    out = .returned ∧
      ∃ l', s'.Stores l' ∧ OneEach l' ∧ ∀ t, entryIn l' t = a.entry t (entryIn l t) := by
  have hbehind : ∀ r, Becomes l a r → s.behind r = (s', out) → out = .returned ∧
      ∃ l', s'.Stores l' ∧ OneEach l' ∧ ∀ t, entryIn l' t = a.entry t (entryIn l t) := by
    rintro r ⟨k, l', rfl, hk, hl', hentry⟩ heq
    cases heq
    exact ⟨rfl, l', hk, hl', hentry⟩
  cases a with
  | register malloc threadID name =>
      cases malloc with
      | none =>
          exact hbehind _ (becomes_register hs hl none threadID name) (Option.some.inj hstep)
      | some p =>
          simp only [threadNameStep] at hstep
          split at hstep
          · cases hstep
          · rename_i hp
            exact hbehind _ (becomes_register hs hl (some ⟨p, hp⟩) threadID name)
              (Option.some.inj hstep)
  | remove threadID =>
      exact hbehind _ (becomes_removeEntry hs hl threadID) (Option.some.inj hstep)

/-! ## Names -/

/-- What the registrations of a thread leave in its entry. -/
def storedPath (names : List (List UInt8)) : List UInt8 :=
  names.foldl (fun path name => overlay path (logPath name)) []

theorem storedPath_snoc (names : List (List UInt8)) (name : List UInt8) :
    storedPath (names ++ [name]) = overlay (storedPath names) (logPath name) := by
  simp [storedPath, List.foldl_append]

theorem length_logPath (name : List UInt8) : (logPath name).length = name.length + 11 := by
  simp only [logPath, List.length_append]
  show 7 + name.length + 4 = _
  omega

theorem length_storedPath_le {names : List (List UInt8)} {k : Nat} :
    (storedPath names).length ≤ k ↔ ∀ n ∈ names, (logPath n).length ≤ k := by
  induction names using List.reverseRecOn with
  | nil => simp [storedPath]
  | append_singleton names name ih =>
      rw [storedPath_snoc, length_overlay, Nat.max_le, ih]
      simp [or_imp, forall_and]

/-- The path registered last is the one stored just where it covers the earlier ones. -/
theorem storedPath_eq_iff {names : List (List UInt8)} {name : List UInt8} :
    storedPath (names ++ [name]) = logPath name ↔ ∀ n ∈ names, n.length ≤ name.length := by
  rw [storedPath_snoc, overlay_eq_iff, length_storedPath_le]
  simp only [length_logPath, Nat.add_le_add_iff_right]

theorem zero_notMem_logPath {name : List UInt8} (h : 0 ∉ name) : 0 ∉ logPath name := by
  rw [logPath, List.mem_append, List.mem_append]
  rintro ((hmem | hmem) | hmem)
  · exact absurd hmem (by decide)
  · exact h hmem
  · exact absurd hmem (by decide)

/-- `snprintf` keeps what fits in front of the terminator. -/
theorem newFilename_eq_take (name : List UInt8) :
    ThreadNames.newFilename name = (logPath (cstr name)).take 255 := by
  have hflat : [lit "./logs/", cstr name, lit ".log"].flatten = logPath (cstr name) := by
    simp [logPath]
  rw [ThreadNames.newFilename, Logger.fileName, hflat]
  rfl

/-- A path that fits is registered whole. -/
theorem newFilename_eq {name : List UInt8} (hfit : (logPath (cstr name)).length ≤ 255) :
    ThreadNames.newFilename name = logPath (cstr name) := by
  rw [newFilename_eq_take, List.take_of_length_le hfit]

theorem length_newFilename_le (name : List UInt8) :
    (ThreadNames.newFilename name).length ≤ 255 := List.length_take_le _ _

theorem zero_notMem_newFilename (name : List UInt8) : 0 ∉ ThreadNames.newFilename name := by
  rw [newFilename_eq_take]
  exact fun h => zero_notMem_logPath (zero_notMem_cstr name) (List.mem_of_mem_take h)

/-- It is copied over the old one without a terminator. -/
theorem holds_setName {old : List UInt8} (h : e.name.Holds old) (name : List UInt8) :
    (e.setName (ThreadNames.newFilename name)).name.Holds
      (overlay old (ThreadNames.newFilename name)) := by
  have hnul := zero_notMem_newFilename name
  have hle : (ThreadNames.newFilename name).length ≤ registeredThreadNameLenMax :=
    le_trans (length_newFilename_le name) (by decide)
  rw [ThreadNameMap.setName, cstr_eq_self hnul, Nat.min_eq_left hle,
    strncpy_of_notMem le_rfl (by rwa [List.take_length]), List.take_length]
  exact h.write hnul hle

/-! ## Paths -/

/-- Every name is a string of at most 255 bytes. -/
def NamesFit (l : Table EntryPtr ThreadNameMap) : Prop :=
  ∀ t p e, entryIn l t = some (p, e) → ∃ path, e.name.Holds path ∧ path.length ≤ 255

theorem namesFit_step {l' : Table EntryPtr ThreadNameMap} {a : ThreadNameAct} (hfit : NamesFit l)
    (hentry : ∀ t, entryIn l' t = a.entry t (entryIn l t)) : NamesFit l' := by
  have hset : ∀ {e : ThreadNameMap} {old : List UInt8} (name : List UInt8), e.name.Holds old →
      old.length ≤ 255 → ∃ path, (e.setName (ThreadNames.newFilename name)).name.Holds path ∧
        path.length ≤ 255 := by
    intro e old name hold hlen
    refine ⟨_, holds_setName hold name, ?_⟩
    rw [length_overlay]
    exact Nat.max_le.mpr ⟨hlen, length_newFilename_le name⟩
  intro t q e' he'
  rw [hentry] at he'
  by_cases ht : t = a.thread
  · subst ht
    cases a with
    | register malloc threadID name =>
        rw [ThreadNameAct.thread] at he'
        cases hold : entryIn l threadID with
        | some found =>
            rw [hold, entry_register_some, Option.some.injEq, Prod.mk.injEq] at he'
            obtain ⟨old, hheld, hlen⟩ := hfit threadID _ _ hold
            exact he'.2 ▸ hset name hheld hlen
        | none =>
            rw [hold, entry_register_none, Option.map_eq_some_iff] at he'
            obtain ⟨p, -, heq⟩ := he'
            cases heq
            exact hset name Buf.holds_zero (Nat.zero_le _)
    | remove threadID =>
        rw [ThreadNameAct.thread, entry_remove] at he'
        cases he'
  · rw [entry_of_ne ht] at he'
    exact hfit t q e' he'

/-- After any calls the list has at most one entry a thread, and its names fit. -/
theorem run_namesFit {h : History ThreadNameAct ThreadNameOut}
    (hrun : Run threadNameMachine anyStep h s) : ∃ l, s.Stores l ∧ OneEach l ∧ NamesFit l := by
  refine hrun.invariant (I := fun _ s => ∃ l, s.Stores l ∧ OneEach l ∧ NamesFit l) ?_ ?_
  · refine ⟨Table.empty, Links.stores_empty, List.nodup_nil, ?_⟩
    intro t p e he
    cases he
  · rintro h s a s' out ⟨l, hs, hl, hfit⟩ - hstep
    obtain ⟨-, l', hs', hl', hentry⟩ := threadNameStep_becomes hs hl hstep
    exact ⟨l', hs', hl', namesFit_step hfit hentry⟩

theorem pathOf_eq (hs : s.Stores l) (hl : OneEach l) (t : Nat) :
    s.pathOf t = (entryIn l t).map fun found => cstr found.2.name.bytes := by
  rw [ThreadNames.pathOf, entryOf_eq hs hl]
  cases entryIn l t <;> rfl

theorem length_pathOf_le {h : History ThreadNameAct ThreadNameOut}
    (hrun : Run threadNameMachine anyStep h s) {path : List UInt8}
    (hpath : s.pathOf t = some path) : path.length ≤ 255 := by
  obtain ⟨l, hs, hl, hfit⟩ := run_namesFit hrun
  rw [pathOf_eq hs hl, Option.map_eq_some_iff] at hpath
  obtain ⟨found, hfound, rfl⟩ := hpath
  obtain ⟨path, hheld, hlen⟩ := hfit t _ _ hfound
  rwa [hheld.cstr]

/-- What a registration leaves for each thread: the path over the old one for its own. -/
theorem pathOf_register {h : History ThreadNameAct ThreadNameOut}
    (hrun : Run threadNameMachine anyStep h s) {malloc : Option EntryPtr} {name : List UInt8}
    {out : ThreadNameOut} (hstep : threadNameStep s (.register malloc t name) = some (s', out))
    (hroom : malloc.isSome = true ∨ (s.pathOf t).isSome = true) :
    s'.pathOf = Function.update s.pathOf t
      (some (overlay ((s.pathOf t).getD []) (ThreadNames.newFilename name))) := by
  obtain ⟨l, hs, hl, hfit⟩ := run_namesFit hrun
  obtain ⟨-, l', hs', hl', hentry⟩ := threadNameStep_becomes hs hl hstep
  funext t'
  rw [pathOf_eq hs' hl', hentry]
  by_cases ht : t' = t
  · subst ht
    rw [Function.update_self, pathOf_eq hs hl]
    cases hfound : entryIn l t' with
    | some found =>
        obtain ⟨old, hheld, -⟩ := hfit t' _ _ hfound
        rw [entry_register_some, Option.map_some, Option.map_some, Option.getD_some, hheld.cstr,
          (holds_setName hheld name).cstr]
    | none =>
        rw [pathOf_eq hs hl, hfound] at hroom
        obtain ⟨p, rfl⟩ := Option.isSome_iff_exists.mp (hroom.resolve_right Bool.false_ne_true)
        rw [entry_register_none, Option.map_some, Option.map_some, Option.map_none,
          Option.getD_none, (holds_setName Buf.holds_zero name).cstr]
  · rw [Function.update_of_ne ht, entry_of_ne ht, pathOf_eq hs hl]

/-- Without an entry and without memory for one there is none behind it. -/
theorem pathOf_register_none {h : History ThreadNameAct ThreadNameOut}
    (hrun : Run threadNameMachine anyStep h s) {name : List UInt8} {out : ThreadNameOut}
    (hstep : threadNameStep s (.register none t name) = some (s', out))
    (hnone : s.pathOf t = none) : s'.pathOf t = none := by
  obtain ⟨l, hs, hl, -⟩ := run_namesFit hrun
  obtain ⟨-, l', hs', hl', hentry⟩ := threadNameStep_becomes hs hl hstep
  rw [pathOf_eq hs hl, Option.map_eq_none_iff] at hnone
  rw [pathOf_eq hs' hl', hentry, hnone, entry_register_none]
  rfl

end LinuxChat
