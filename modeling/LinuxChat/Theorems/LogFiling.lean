import LinuxChat.Logic.NameEntries
import LinuxChat.Model.LogFiles

/-!
# Where log lines go

An entry outlives its thread, a rename replaces its target, and a name may be
registered twice. In a run in which threads start on ids without an entry or
pending lines, and register paths that are nobody else's, are not shorter than
their old one and replace no file, no line is lost, and each goes to the file
of its own session (`filed_safely`).
-/

namespace LinuxChat

open CMem Trace LogDir

/-- The file is the thread's own, or one the session has registered, and no other session has
registered it. -/
structure OwnFile (h : History LogDirAct LogDirOut) (l : LogLine) (path : LogPath) : Prop where
  own : path = threadLog l.thread ∨ (l.session, path) ∈ registeredPaths h
  noOther : ∀ session, (session, path) ∈ registeredPaths h → session = l.session

/-- A thread starts on an id that has left no entry and no pending line; it registers a path that
covers the one in its entry, that no other session has registered and to which its file is not
moved over another one; a flush finds no line of an unregistered thread whose file another
session has registered. -/
def tidyRegistrations : Guard LogDir LogDirAct LogDirOut := fun h s a =>
  match a with
  | .start t => s.names t = none ∧ ∀ l ∈ s.pending, l.thread ≠ t
  | .register t name =>
      (∀ old ∈ s.names t, old.length ≤ (ThreadNames.newFilename name).length) ∧
        (∀ e ∈ registeredPaths h, e.2 = ThreadNames.newFilename name → s.live t = some e.1) ∧
        (threadLog t = ThreadNames.newFilename name ∨ s.files.get? (threadLog t) = none ∨
          s.files.get? (ThreadNames.newFilename name) = none)
  | .flush => ∀ l ∈ s.pending, s.names l.thread = none →
      ∀ e ∈ registeredPaths h, e.2 = threadLog l.thread → e.1 = l.session
  | .log .. | .finish _ => True

instance (h : History LogDirAct LogDirOut) (s : LogDir) : (a : LogDirAct) →
    Decidable (tidyRegistrations h s a)
  | .start _ => inferInstanceAs (Decidable (_ ∧ ∀ l ∈ s.pending, _))
  | .register t _ => inferInstanceAs (Decidable ((∀ old ∈ s.names t, _) ∧
      (∀ e ∈ registeredPaths h, _ → _) ∧ (_ ∨ _ ∨ _)))
  | .flush => inferInstanceAs (Decidable (∀ l ∈ s.pending, _ → ∀ e ∈ registeredPaths h, _ → _))
  | .log .. | .finish _ => isTrue trivial

variable {h : History LogDirAct LogDirOut} {s s' : LogDir} {a : LogDirAct} {out : LogDirOut}

/-! ## The list of names -/

/-- The names are those of the list in memory: a registration does the same to both. -/
theorem names_register {calls : History ThreadNameAct ThreadNameOut} {list list' : ThreadNames}
    {malloc : Option EntryPtr} {t : Nat} {name : List UInt8} {ret : ThreadNameOut}
    (hrun : Run threadNameMachine anyStep calls list)
    (hstep : threadNameStep list (.register malloc t name) = some (list', ret))
    (hroom : malloc.isSome = true ∨ (list.pathOf t).isSome = true)
    (hnames : s.names = list.pathOf) : (s.register t name).names = list'.pathOf := by
  rw [pathOf_register hrun hstep hroom, ← hnames]
  rfl

/-! ## Files -/

/-- Writing a line keeps what there is. -/
theorem contains_writeMessage {files : Files LogPath FileLine} {x : FileLine}
    (hx : files.Contains x) (names : Nat → Option LogPath) (l : LogLine) :
    (writeMessage names files l).Contains x := by
  simp only [writeMessage]
  refine Files.Contains.appendLine ?_ _ _
  cases names l.thread with
  | some name => exact hx
  | none =>
      show (if _ then files else _).Contains x
      split
      · exact hx
      · rename_i hnone
        exact hx.create (by simpa using hnone) _

/-- The line that is written is in a file behind the write. -/
theorem contains_written (files : Files LogPath FileLine) (names : Nat → Option LogPath)
    (l : LogLine) : (writeMessage names files l).Contains (.line l) :=
  Files.contains_appendLine_self

theorem contains_foldl {files : Files LogPath FileLine} {x : FileLine} (hx : files.Contains x)
    (names : Nat → Option LogPath) (pending : List LogLine) :
    (pending.foldl (writeMessage names) files).Contains x := by
  induction pending generalizing files with
  | nil => exact hx
  | cons l pending ih => exact ih (contains_writeMessage hx names l)

/-- Every pending line is written. -/
theorem contains_flushed (files : Files LogPath FileLine) (names : Nat → Option LogPath)
    {pending : List LogLine} {l : LogLine} (hl : l ∈ pending) :
    (pending.foldl (writeMessage names) files).Contains (.line l) := by
  induction pending generalizing files with
  | nil => cases hl
  | cons l' pending ih =>
      rcases List.mem_cons.mp hl with rfl | hl
      · exact contains_foldl (contains_written files names l) names pending
      · exact ih _ hl

/-! ## Whose a name is -/

/-- A session that owns the path in the entry of a thread: it has registered it, no other has,
the thread's pending lines are its own, and it is the one that lives if any does. -/
structure Owns (h : History LogDirAct LogDirOut) (s : LogDir) (t : Nat) (path : LogPath)
    (session : Nat) : Prop where
  registered : (session, path) ∈ registeredPaths h
  noOther : ∀ other, (other, path) ∈ registeredPaths h → other = session
  pending : ∀ l ∈ s.pending, l.thread = t → l.session = session
  living : ∀ other, s.live t = some other → other = session

/-- Written lines are in some file, every entry has its owner, and the pending lines of a live
thread are its session's. -/
structure Filed (h : History LogDirAct LogDirOut) (s : LogDir) : Prop where
  kept : ∀ l ∈ writtenLines h, s.files.Contains (.line l)
  owned : ∀ t path, s.names t = some path →
    path.length ≤ 255 ∧ ∃ session, Owns h s t path session
  current : ∀ t session, s.live t = some session →
    ∀ l ∈ s.pending, l.thread = t → l.session = session

/-- What a step shows of registrations. -/
theorem registeredPaths_snoc (h : History LogDirAct LogDirOut) (a : LogDirAct)
    (out : LogDirOut) : registeredPaths (h ++ [(a, out)]) = registeredPaths h ++
      match out with
      | .registered session path => [(session, path)]
      | _ => [] := by
  rw [registeredPaths, List.filterMap_append]
  cases out <;> rfl

theorem writtenLines_snoc (h : History LogDirAct LogDirOut) (a : LogDirAct) (out : LogDirOut) :
    writtenLines (h ++ [(a, out)]) = writtenLines h ++
      match out with
      | .wrote writes => writes.map Prod.fst
      | _ => [] := by
  rw [writtenLines, List.flatMap_append]
  cases out <;> simp [writtenLines]

/-! ## Steps -/

/-- Lines that go nowhere and paths that nobody registers leave the owner as it is. -/
theorem Owns.mono {h' : History LogDirAct LogDirOut} {t : Nat} {path : LogPath} {session : Nat}
    (ho : Owns h s t path session) (hpaths : registeredPaths h' = registeredPaths h)
    (hpending : ∀ l ∈ s'.pending, l.thread = t → l ∈ s.pending ∨ l.session = session)
    (hlive : ∀ other, s'.live t = some other → s.live t = some other) :
    Owns h' s' t path session where
  registered := hpaths ▸ ho.registered
  noOther other hother := ho.noOther other (hpaths ▸ hother)
  pending l hl ht := (hpending l hl ht).elim (fun hold => ho.pending l hold ht) id
  living other hother := ho.living other (hlive other hother)

theorem filed_start {t : Nat} (hf : Filed h s) (hg : tidyRegistrations h s (.start t))
    (hstep : logDirStep s (.start t) = some (s', out)) : Filed (h ++ [(.start t, out)]) s' := by
  obtain ⟨hnone, hpending⟩ := hg
  simp only [logDirStep] at hstep
  split at hstep
  · cases hstep
  · cases hstep
    constructor
    · rw [writtenLines_snoc, List.append_nil]
      exact hf.kept
    · intro t' path hname
      obtain ⟨hfit, session, ho⟩ := hf.owned t' path hname
      have ht : t' ≠ t := by
        rintro rfl
        rw [hnone] at hname
        cases hname
      refine ⟨hfit, session, ho.mono ?_ (fun l hl _ => .inl hl) ?_⟩
      · rw [registeredPaths_snoc, List.append_nil]
      · intro other hother
        exact (Function.update_of_ne ht _ s.live).symm.trans hother
    · intro t' session hlive l hl hthread
      by_cases ht : t' = t
      · exact absurd (hthread.trans ht) (hpending l hl)
      · have hbefore := (Function.update_of_ne ht _ s.live).symm.trans hlive
        exact hf.current t' session hbefore l hl hthread

theorem filed_log {t : Nat} {text : List UInt8} (hf : Filed h s)
    (hstep : logDirStep s (.log t text) = some (s', out)) :
    Filed (h ++ [(.log t text, out)]) s' := by
  simp only [logDirStep] at hstep
  split at hstep
  · cases hstep
  · rename_i session hlive
    cases hstep
    have hnew : ∀ l ∈ s.pending ++ [⟨s.lines, session, t, text⟩], l ∈ s.pending ∨
        l.thread = t ∧ l.session = session := by
      intro l hl
      rcases List.mem_append.mp hl with hl | hl
      · exact .inl hl
      · rw [List.mem_singleton.mp hl]
        exact .inr ⟨rfl, rfl⟩
    constructor
    · rw [writtenLines_snoc, List.append_nil]
      exact hf.kept
    · intro t' path hname
      obtain ⟨hfit, owner, ho⟩ := hf.owned t' path hname
      refine ⟨hfit, owner, ho.mono ?_ ?_ fun _ hother => hother⟩
      · rw [registeredPaths_snoc, List.append_nil]
      · intro l hl hthread
        rcases hnew l hl with hold | ⟨ht, hsession⟩
        · exact .inl hold
        · -- The line is the live session's, which is the owner.
          rw [← hthread, ht] at ho
          exact .inr (hsession.trans (ho.living session hlive))
    · intro t' session' hlive' l hl hthread
      rcases hnew l hl with hold | ⟨ht, hsession⟩
      · exact hf.current t' session' hlive' l hold hthread
      · rw [← hthread, ht, hlive, Option.some.injEq] at hlive'
        exact hsession.trans hlive'

/-- The name of a registration is its path, if that covers the old one. -/
theorem overlay_newFilename {old : Option LogPath} {path : LogPath}
    (h : ∀ o ∈ old, o.length ≤ path.length) : overlay (old.getD []) path = path := by
  rw [overlay_eq_iff]
  cases old with
  | none => exact Nat.zero_le _
  | some o => exact h o rfl

/-- Who registers a path that is nobody else's owns it. -/
theorem owns_register {t session : Nat} {path : LogPath} (hf : Filed h s)
    (hlive : s.live t = some session) (hpending : s'.pending = s.pending) (hsame : s'.live = s.live)
    (hmine : ∀ other, (other, path) ∈ registeredPaths h → other = session) :
    Owns (h ++ [(a, .registered session path)]) s' t path session where
  registered := by
    rw [registeredPaths_snoc]
    exact List.mem_append_right _ (List.mem_singleton_self _)
  noOther other hmem := by
    rw [registeredPaths_snoc] at hmem
    rcases List.mem_append.mp hmem with hmem | hmem
    · exact hmine other hmem
    · exact (Prod.mk.inj (List.mem_singleton.mp hmem)).1
  pending l hl := hf.current t session hlive l (hpending ▸ hl)
  living other hother := by
    rw [hsame, hlive] at hother
    exact (Option.some.inj hother).symm

/-- And the owners of other entries keep theirs. -/
theorem Owns.register {t session owner : Nat} {path new : LogPath} (ho : Owns h s t path owner)
    (hpending : s'.pending = s.pending) (hsame : s'.live = s.live)
    (hmine : ∀ other, (other, new) ∈ registeredPaths h → other = session) :
    Owns (h ++ [(a, .registered session new)]) s' t path owner where
  registered := by
    rw [registeredPaths_snoc]
    exact List.mem_append_left _ ho.registered
  noOther other hmem := by
    rw [registeredPaths_snoc] at hmem
    rcases List.mem_append.mp hmem with hmem | hmem
    · exact ho.noOther other hmem
    · -- A path that is owned already is registered by its owner only.
      obtain ⟨rfl, rfl⟩ := Prod.mk.inj (List.mem_singleton.mp hmem)
      exact (hmine owner ho.registered).symm
  pending l hl := ho.pending l (hpending ▸ hl)
  living other hother := ho.living other (hsame ▸ hother)

theorem filed_register {t : Nat} {name : List UInt8} (hf : Filed h s)
    (hg : tidyRegistrations h s (.register t name))
    (hstep : logDirStep s (.register t name) = some (s', out)) :
    Filed (h ++ [(.register t name, out)]) s' := by
  obtain ⟨hcover, hother, hfree⟩ := hg
  simp only [logDirStep] at hstep
  split at hstep
  · cases hstep
  · rename_i session hlive
    cases hstep
    rw [hlive] at hother
    have hmine : ∀ other, (other, ThreadNames.newFilename name) ∈ registeredPaths h →
        other = session := fun other hmem => (Option.some.inj (hother _ hmem rfl)).symm
    constructor
    · rw [writtenLines_snoc, List.append_nil]
      exact fun l hl => (hf.kept l hl).rename hfree
    · intro t' path hname
      by_cases ht : t' = t
      · subst ht
        have hupdate := (Function.update_self t' _ s.names).symm.trans hname
        rw [overlay_newFilename hcover, Option.some.injEq] at hupdate
        subst hupdate
        exact ⟨length_newFilename_le name, session, owns_register hf hlive rfl rfl hmine⟩
      · have hbefore : s.names t' = some path :=
          (Function.update_of_ne ht _ s.names).symm.trans hname
        obtain ⟨hfit, owner, ho⟩ := hf.owned t' path hbefore
        exact ⟨hfit, owner, ho.register rfl rfl hmine⟩
    · exact hf.current

theorem filed_flush (hf : Filed h s) (hstep : logDirStep s .flush = some (s', out)) :
    Filed (h ++ [(.flush, out)]) s' := by
  cases hstep
  constructor
  · intro l hl
    rw [writtenLines_snoc] at hl
    rcases List.mem_append.mp hl with hl | hl
    · exact contains_foldl (hf.kept l hl) s.names s.pending
    · simp only [List.map_map, Function.comp_def, List.map_id'] at hl
      exact contains_flushed s.files s.names hl
  · intro t path hname
    obtain ⟨hfit, session, ho⟩ := hf.owned t path hname
    refine ⟨hfit, session, ho.mono ?_ (fun l hl _ => by cases hl) fun _ hother => hother⟩
    rw [registeredPaths_snoc, List.append_nil]
  · intro t session _ l hl
    cases hl

theorem filed_finish {t : Nat} (hf : Filed h s)
    (hstep : logDirStep s (.finish t) = some (s', out)) : Filed (h ++ [(.finish t, out)]) s' := by
  simp only [logDirStep] at hstep
  split at hstep
  · cases hstep
  · cases hstep
    have hlive : ∀ t' other, Function.update s.live t none t' = some other →
        s.live t' = some other := by
      intro t' other hother
      by_cases ht : t' = t
      · rw [ht, Function.update_self] at hother
        cases hother
      · rwa [Function.update_of_ne ht] at hother
    constructor
    · rw [writtenLines_snoc, List.append_nil]
      exact hf.kept
    · intro t' path hname
      obtain ⟨hfit, session, ho⟩ := hf.owned t' path hname
      refine ⟨hfit, session, ho.mono ?_ (fun l hl _ => .inl hl) (hlive t')⟩
      rw [registeredPaths_snoc, List.append_nil]
    · intro t' session hother
      exact hf.current t' session (hlive t' session hother)

/-! ## Runs -/

theorem run_filed (hrun : Run logDirMachine tidyRegistrations h s) : Filed h s := by
  refine hrun.invariant (I := Filed) ?_ ?_
  · constructor
    · intro l hl
      cases hl
    · intro t path hname
      cases hname
    · intro t session hlive
      cases hlive
  · intro h s a s' out hf hg hstep
    cases a with
    | start t => exact filed_start hf hg hstep
    | log t text => exact filed_log hf hstep
    | register t name => exact filed_register hf hg hstep
    | flush => exact filed_flush hf hstep
    | finish t => exact filed_finish hf hstep

/-- A flush that meets the condition writes each line to the file of its session. -/
theorem ownFile_of_flush (hf : Filed h s) (hg : tidyRegistrations h s .flush) {l : LogLine}
    (hl : l ∈ s.pending) : OwnFile h l (fileOf s.names l.thread) := by
  cases hname : s.names l.thread with
  | none =>
      rw [fileOf, hname]
      exact ⟨.inl rfl, fun session hmem => hg l hl hname _ hmem rfl⟩
  | some path =>
      obtain ⟨hfit, owner, ho⟩ := hf.owned l.thread path hname
      have hpath : Logger.fileName [path] = path := by
        rw [Logger.fileName, List.flatten_singleton]
        exact List.take_of_length_le hfit
      rw [fileOf, hname]
      show OwnFile h l (Logger.fileName [path])
      rw [hpath]
      have hsession := ho.pending l hl rfl
      exact ⟨.inr (hsession ▸ ho.registered), fun session hmem =>
        (ho.noOther session hmem).trans hsession.symm⟩

/-- Only a flush writes, each line to the file of its thread. -/
theorem flush_of_wrote {writes : List (LogLine × LogPath)}
    (hstep : logDirStep s a = some (s', .wrote writes)) :
    a = .flush ∧ writes = s.pending.map fun l => (l, fileOf s.names l.thread) := by
  cases a with
  | flush =>
      cases hstep
      exact ⟨rfl, rfl⟩
  | start t =>
      simp only [logDirStep] at hstep
      split at hstep <;> cases hstep
  | log t text =>
      simp only [logDirStep] at hstep
      split at hstep <;> cases hstep
  | register t name =>
      simp only [logDirStep] at hstep
      split at hstep <;> cases hstep
  | finish t =>
      simp only [logDirStep] at hstep
      split at hstep <;> cases hstep

/-- **No log line is lost or misfiled.** In every run whose starts, registrations and flushes meet
the conditions, every line that has been written is in some file, and each went to the file of
its thread or to one its session had registered, and to none that another session had. -/
theorem filed_safely (hrun : Run logDirMachine tidyRegistrations h s) :
    (∀ l ∈ writtenLines h, s.files.Contains (.line l)) ∧
      ∀ h₁ a writes h₂, h = h₁ ++ (a, .wrote writes) :: h₂ →
        ∀ w ∈ writes, OwnFile h₁ w.1 w.2 := by
  refine ⟨(run_filed hrun).kept, ?_⟩
  rintro h₁ a writes h₂ rfl w hw
  obtain ⟨s₀, s₁, hrun₀, hg, hstep⟩ := hrun.of_append_cons
  obtain ⟨rfl, rfl⟩ := flush_of_wrote hstep
  obtain ⟨l, hl, rfl⟩ := List.mem_map.mp hw
  exact ownFile_of_flush (run_filed hrun₀) hg hl

/-- Two sessions log before and after they register. -/
theorem filed_safely_two :
    ∃ h s, Run logDirMachine tidyRegistrations h s ∧ (writtenLines h).length = 4 ∧
      (∀ l ∈ writtenLines h, s.files.Contains (.line l)) ∧
      ∀ h₁ a writes h₂, h = h₁ ++ (a, .wrote writes) :: h₂ →
        ∀ w ∈ writes, OwnFile h₁ w.1 w.2 := by
  obtain ⟨h, s, hrun, hlen⟩ := Run.exists_of_replay
    (M := logDirMachine) (G := tidyRegistrations)
    [.start 1, .log 1 (lit "start"), .flush, .register 1 (lit "bob"), .start 2,
      .log 2 (lit "start"), .log 1 (lit "login"), .flush, .register 2 (lit "eve"), .finish 1,
      .log 2 (lit "login"), .flush]
    (fun h _ => decide ((writtenLines h).length = 4)) (by decide +kernel)
  exact ⟨h, s, hrun, of_decide_eq_true hlen, filed_safely hrun⟩

/-- A second `bob` logs in after the first has gone: the rename replaces the first one's file, and
its line is in no file. -/
theorem line_lost :
    ∃ h s, Run logDirMachine anyStep h s ∧ ⟨0, 0, 1, lit "hello"⟩ ∈ writtenLines h ∧
      ¬ s.files.Contains (.line ⟨0, 0, 1, lit "hello"⟩) := by
  obtain ⟨h, s, hrun, hP⟩ := Run.exists_of_replay (M := logDirMachine) (G := anyStep)
    [.start 1, .register 1 (lit "bob"), .log 1 (lit "hello"), .flush, .finish 1, .start 2,
      .log 2 (lit "start"), .flush, .register 2 (lit "bob")]
    (fun h s => decide (⟨0, 0, 1, lit "hello"⟩ ∈ writtenLines h) &&
      s.files.entries.all fun e => decide (FileLine.line ⟨0, 0, 1, lit "hello"⟩ ∉ e.2))
    (by decide +kernel)
  rw [Bool.and_eq_true, decide_eq_true_eq, List.all_eq_true] at hP
  refine ⟨h, s, hrun, hP.1, ?_⟩
  rintro ⟨path, lines, hget, hmem⟩
  exact of_decide_eq_true (hP.2 (path, lines) (Table.get?_eq_some_iff.mp hget)) hmem

end LinuxChat
