import LinuxChat.Model.MainThread

/-!
# What the options do

The loop over the options either goes on or ends the process: one more option
accepted has stored what it stands for and nothing else, so of several options
of a kind the last one counts.
-/

namespace LinuxChat

open CMem Trace

/-! ## Options -/

namespace Opt

/-- The name `-a` stores. -/
def adminArg? : Opt → Option (List UInt8)
  | admin optarg => some optarg.bytes
  | _ => none

/-- The name `-n` stores. -/
def serverArg? : Opt → Option (List UInt8)
  | serverName optarg => some optarg.bytes
  | _ => none

/-- The number `-p` stores. -/
def portArg? : Opt → Option Nat
  | port optarg => some (sizeT (atoi optarg.bytes))
  | _ => none

/-- The level `-d` sets, if it is one. -/
def levelArg? : Opt → Option LogLevel
  | debugLevel optarg =>
      let newLevel := sizeT (atoi optarg.bytes) % 0x100000000
      if 0 < newLevel then LogLevel.ofNat? newLevel else none
  | _ => none

/-- What the loop asks of an option, but for the test of the port. -/
def Accepted : Opt → Prop
  | admin optarg => 0 < optarg.bytes.length ∧ optarg.bytes.length < 32
  | serverName optarg => 0 < optarg.bytes.length ∧ optarg.bytes.length < 32
  | port optarg => 0 < sizeT (atoi optarg.bytes) ∧ sizeT (atoi optarg.bytes) < 65535
  | monochrome => True
  | debugLevel _ => True
  | logFormat _ => False
  | help => False
  | unknown => False

/-- It ends the process with status 0. -/
def EndsWell : Opt → Prop
  | admin optarg => ¬ (0 < optarg.bytes.length ∧ optarg.bytes.length < 32)
  | serverName _ => False
  | port _ => False
  | monochrome => False
  | debugLevel _ => False
  | logFormat _ => True
  | help => True
  | unknown => True

/-- The last of what some options give, or a default. -/
def last {α : Type} (pick : Opt → Option α) (default : α) (l : List Opt) : α :=
  (l.filterMap pick).getLast?.getD default

variable {α : Type} {pick : Opt → Option α} {default : α}

@[simp] theorem last_nil : last pick default [] = default := rfl

/-- Of several options of a kind the last one counts. -/
theorem last_snoc (l : List Opt) (o : Opt) :
    last pick default (l ++ [o]) = (pick o).getD (last pick default l) := by
  unfold last
  rw [List.filterMap_append]
  cases hpick : pick o with
  | none =>
      rw [List.filterMap_cons_none hpick, List.filterMap_nil, List.append_nil, Option.getD_none]
  | some a =>
      rw [List.filterMap_cons_some hpick, List.filterMap_nil, List.getLast?_concat,
        Option.getD_some, Option.getD_some]

theorem last_eq_or_mem (pick : Opt → Option α) (default : α) (l : List Opt) :
    last pick default l = default ∨ ∃ o ∈ l, pick o = some (last pick default l) := by
  unfold last
  cases hlast : (l.filterMap pick).getLast? with
  | none => exact Or.inl rfl
  | some a => exact Or.inr (List.mem_filterMap.mp (List.mem_of_getLast? hlast))

/-- What all accepted options have, and the default, the last one has. -/
theorem last_of_accepted {P : α → Prop} {l : List Opt} (hl : ∀ o ∈ l, o.Accepted)
    (hdefault : P default) (hpick : ∀ o a, o.Accepted → pick o = some a → P a) :
    P (last pick default l) := by
  rcases last_eq_or_mem pick default l with heq | ⟨o, ho, heq⟩
  · rwa [heq]
  · exact hpick o _ (hl o ho) heq

end Opt

theorem setLogLevel_eq (internalLevel : LogLevel) (newLevel : Nat) :
    setLogLevel internalLevel newLevel =
      (if 0 < newLevel then LogLevel.ofNat? newLevel else none).getD internalLevel := by
  unfold setLogLevel
  by_cases hpos : 0 < newLevel
  · rw [if_pos hpos]
    by_cases hlt : newLevel < 6
    · rw [if_pos ⟨hlt, hpos⟩]
    · have hnone : LogLevel.ofNat? newLevel = none := List.getElem?_eq_none (by simp; omega)
      rw [if_neg fun h => hlt h.1, hnone, Option.getD_none]
  · rw [if_neg hpos, if_neg fun h => hpos h.2, Option.getD_none]

/-! ## The configuration -/

/-- The variables hold what these options, all of them accepted, stand for. -/
structure Configured (l : List Opt) (s : MainThread) : Prop where
  accepted : ∀ o ∈ l, o.Accepted
  adminName : s.adminName.Reads (Opt.last Opt.adminArg? (lit "Admin") l)
  serverName : s.serverName.Reads (Opt.last Opt.serverArg? (lit "Server_04") l)
  port : s.port = Opt.last Opt.portArg? 8111 l
  internalLevel : s.internalLevel = Opt.last Opt.levelArg? .trace l

namespace Configured

variable {l : List Opt} {s s' : MainThread} {o : Opt}

/-- Only these variables count. -/
theorem congr (h : Configured l s) (hadmin : s'.adminName = s.adminName)
    (hserver : s'.serverName = s.serverName) (hport : s'.port = s.port)
    (hlevel : s'.internalLevel = s.internalLevel) : Configured l s' := by
  refine ⟨h.accepted, ?_, ?_, ?_, ?_⟩
  · rw [hadmin]; exact h.adminName
  · rw [hserver]; exact h.serverName
  · rw [hport]; exact h.port
  · rw [hlevel]; exact h.internalLevel

/-- One more option, and what it leaves in the variables. -/
theorem snoc (h : Configured l s) (ho : o.Accepted)
    (hadmin : s'.adminName.Reads (o.adminArg?.getD (Opt.last Opt.adminArg? (lit "Admin") l)))
    (hserver : s'.serverName.Reads
      (o.serverArg?.getD (Opt.last Opt.serverArg? (lit "Server_04") l)))
    (hport : s'.port = o.portArg?.getD s.port)
    (hlevel : s'.internalLevel = o.levelArg?.getD s.internalLevel) : Configured (l ++ [o]) s' := by
  refine ⟨?_, ?_, ?_, ?_, ?_⟩
  · intro o' ho'
    rcases List.mem_append.mp ho' with hl | hlast
    · exact h.accepted o' hl
    · rw [List.mem_singleton.mp hlast]
      exact ho
  · rw [Opt.last_snoc]; exact hadmin
  · rw [Opt.last_snoc]; exact hserver
  · rw [Opt.last_snoc, hport, h.port]
  · rw [Opt.last_snoc, hlevel, h.internalLevel]

end Configured

/-- Behind the first lines of `application_Startup`. -/
theorem configured_start (argv : CommandLine) : Configured [] (.start argv) :=
  ⟨fun _ h => absurd h List.not_mem_nil, ⟨by decide, List.replicate 26 0, rfl⟩,
    ⟨by decide, List.replicate 22 0, rfl⟩, rfl, rfl⟩

namespace MainThread

variable {s : MainThread} {l : List Opt}

/-- The body of the loop over the options: the option is accepted, or the process ends. -/
theorem evaluate_spec (rest : List Opt) (test : PortTest) (o : Opt) (h : Configured l s) :
    ((s.evaluate rest test o).1.phase = .options rest ∧
        Configured (l ++ [o]) (s.evaluate rest test o).1) ∨
      ((s.evaluate rest test o).1.phase = .exited 0 ∧ o.EndsWell) ∨
      ((s.evaluate rest test o).1.phase = .exited 1 ∧ ¬ o.EndsWell) := by
  cases o with
  | admin optarg =>
      by_cases hlen : 0 < optarg.bytes.length ∧ optarg.bytes.length < 32
      · left
        obtain ⟨b, hb, hreads⟩ := s.adminName.sprintf_reads optarg.nulFree hlen.2
        have heq : (s.evaluate rest test (.admin optarg)).1 =
            { s with adminName := b, phase := .options rest } := by
          simp only [evaluate, if_pos hlen, hb, Option.elim_some]
        rw [heq]
        exact ⟨rfl, h.snoc hlen hreads h.serverName rfl rfl⟩
      · -- A refused admin name ends the process well, a refused server name does not.
        right; left
        have heq : (s.evaluate rest test (.admin optarg)).1 = s.exit 0 := by
          simp only [evaluate, if_neg hlen]
        rw [heq]
        exact ⟨rfl, hlen⟩
  | serverName optarg =>
      by_cases hlen : 0 < optarg.bytes.length ∧ optarg.bytes.length < 32
      · left
        obtain ⟨b, hb, hreads⟩ := s.serverName.sprintf_reads optarg.nulFree hlen.2
        have heq : (s.evaluate rest test (.serverName optarg)).1 =
            { s with serverName := b, phase := .options rest } := by
          simp only [evaluate, if_pos hlen, hb, Option.elim_some]
        rw [heq]
        exact ⟨rfl, h.snoc hlen h.adminName hreads rfl rfl⟩
      · right; right
        have heq : (s.evaluate rest test (.serverName optarg)).1 = s.exit 1 := by
          simp only [evaluate, if_neg hlen]
        rw [heq]
        exact ⟨rfl, not_false⟩
  | monochrome =>
      left
      exact ⟨rfl, h.snoc trivial h.adminName h.serverName rfl rfl⟩
  | debugLevel optarg =>
      -- A level that is refused leaves the old one and is no reason to stop.
      left
      exact ⟨rfl, h.snoc trivial h.adminName h.serverName rfl (setLogLevel_eq _ _)⟩
  | port optarg =>
      by_cases hrange : 0 < sizeT (atoi optarg.bytes) ∧ sizeT (atoi optarg.bytes) < 65535
      · cases hfree : (isPortAvailable test).1 with
        | true =>
            -- In range, so that the cast to `in_port_t` keeps it.
            left
            have heq : (s.evaluate rest test (.port optarg)).1 =
                { s with port := sizeT (atoi optarg.bytes) % 0x10000, phase := .options rest } := by
              simp only [evaluate, if_pos hrange, hfree, if_true]
            rw [heq]
            refine ⟨rfl, h.snoc hrange h.adminName h.serverName ?_ rfl⟩
            exact Nat.mod_eq_of_lt (by omega)
        | false =>
            right; right
            have heq : (s.evaluate rest test (.port optarg)).1 = s.exit 1 := by
              simp only [evaluate, if_pos hrange, hfree, Bool.false_eq_true, if_false]
            rw [heq]
            exact ⟨rfl, not_false⟩
      · right; right
        have heq : (s.evaluate rest test (.port optarg)).1 = s.exit 1 := by
          simp only [evaluate, if_neg hrange]
        rw [heq]
        exact ⟨rfl, not_false⟩
  | logFormat optarg =>
      right; left
      exact ⟨rfl, trivial⟩
  | help =>
      right; left
      exact ⟨rfl, trivial⟩
  | unknown =>
      right; left
      exact ⟨rfl, trivial⟩

/-- An accepted option is passed, if its port is free. -/
theorem evaluate_passes (rest : List Opt) (fd : Nat) {o : Opt} (ho : o.Accepted) :
    (s.evaluate rest (.bound fd) o).1.phase = .options rest := by
  cases o with
  | admin optarg =>
      obtain ⟨b, hb, -⟩ := s.adminName.sprintf_reads optarg.nulFree ho.2
      have hlen : 0 < optarg.bytes.length ∧ optarg.bytes.length < 32 := ho
      simp only [evaluate, if_pos hlen, hb, Option.elim_some]
  | serverName optarg =>
      obtain ⟨b, hb, -⟩ := s.serverName.sprintf_reads optarg.nulFree ho.2
      have hlen : 0 < optarg.bytes.length ∧ optarg.bytes.length < 32 := ho
      simp only [evaluate, if_pos hlen, hb, Option.elim_some]
  | port optarg =>
      have hrange : 0 < sizeT (atoi optarg.bytes) ∧ sizeT (atoi optarg.bytes) < 65535 := ho
      simp only [evaluate, if_pos hrange, isPortAvailable, if_true]
  | monochrome => rfl
  | debugLevel optarg => rfl
  | logFormat optarg => exact ho.elim
  | help => exact ho.elim
  | unknown => exact ho.elim

/-- The loop over the options leaves everything else alone. -/
theorem evaluate_frame (s : MainThread) (rest : List Opt) (test : PortTest) (o : Opt) :
    (s.evaluate rest test o).1.boundPort = s.boundPort ∧
      (s.evaluate rest test o).1.threads = s.threads ∧
      (s.evaluate rest test o).1.handlers = s.handlers ∧
      (s.evaluate rest test o).1.formats.specificLogFormat = s.formats.specificLogFormat := by
  cases o with
  | admin optarg =>
      simp only [evaluate]
      split
      · cases s.adminName.sprintf optarg.bytes <;> exact ⟨rfl, rfl, rfl, rfl⟩
      · exact ⟨rfl, rfl, rfl, rfl⟩
  | serverName optarg =>
      simp only [evaluate]
      split
      · cases s.serverName.sprintf optarg.bytes <;> exact ⟨rfl, rfl, rfl, rfl⟩
      · exact ⟨rfl, rfl, rfl, rfl⟩
  | port optarg =>
      simp only [evaluate]
      split
      · split <;> exact ⟨rfl, rfl, rfl, rfl⟩
      · exact ⟨rfl, rfl, rfl, rfl⟩
  | monochrome => exact ⟨rfl, rfl, rfl, rfl⟩
  | debugLevel optarg => exact ⟨rfl, rfl, rfl, rfl⟩
  | logFormat optarg => exact ⟨rfl, rfl, rfl, rfl⟩
  | help => exact ⟨rfl, rfl, rfl, rfl⟩
  | unknown => exact ⟨rfl, rfl, rfl, rfl⟩

end MainThread

/-! ## Calls -/

/-- The phases of the main thread behind the command line. -/
def MainPhase.Up : MainPhase → Prop
  | agentInit => True
  | socket => True
  | bind _ => True
  | listen _ => True
  | accept _ => True
  | create _ _ => True
  | shutdown => True
  | options _ => False
  | nonOptions => False
  | exited _ => False
  | fault => False

/-- The server socket has a port. -/
def MainPhase.Bound : MainPhase → Prop
  | listen _ => True
  | accept _ => True
  | create _ _ => True
  | shutdown => True
  | agentInit => False
  | socket => False
  | bind _ => False
  | options _ => False
  | nonOptions => False
  | exited _ => False
  | fault => False

instance : DecidablePred MainPhase.Up
  | .agentInit | .socket | .bind _ | .listen _ | .accept _ | .create _ _ | .shutdown =>
      .isTrue trivial
  | .options _ | .nonOptions | .exited _ | .fault => .isFalse not_false

instance : DecidablePred MainPhase.Bound
  | .listen _ | .accept _ | .create _ _ | .shutdown => .isTrue trivial
  | .agentInit | .socket | .bind _ | .options _ | .nonOptions | .exited _ | .fault =>
      .isFalse not_false

namespace MainThread

variable {argv : CommandLine} {s s' : MainThread} {c : MainCall} {o : MainOut}

theorem call_options {rest : List Opt} (hs : s.call argv (.options rest) c = some (s', o)) :
    ∃ test, c = .getopt test ∧
      ((rest = [] ∧ s' = { s with phase := .nonOptions } ∧ o = []) ∨
        ∃ opt rest', rest = opt :: rest' ∧ (s', o) = s.evaluate rest' test opt) := by
  cases rest with
  | nil =>
      cases c with
      | getopt test =>
          simp only [call, Option.some.injEq, Prod.mk.injEq] at hs
          exact ⟨test, rfl, Or.inl ⟨rfl, hs.1.symm, hs.2.symm⟩⟩
      | _ => cases hs
  | cons opt rest =>
      cases c with
      | getopt test =>
          exact ⟨test, rfl, Or.inr ⟨opt, rest, rfl, (Option.some.inj hs).symm⟩⟩
      | _ => cases hs

theorem call_nonOptions (hs : s.call argv .nonOptions c = some (s', o)) :
    c = .nonOptions ∧ o = [] ∧
      s' = if argv.nonOptions = [] then { s with phase := .agentInit } else s.printHelpAndExit := by
  cases c with
  | nonOptions =>
      simp only [call, Option.some.injEq, Prod.mk.injEq] at hs
      exact ⟨rfl, hs.2.symm, hs.1.symm⟩
  | _ => cases hs

/-- Behind the command line, a call leaves the configuration and the formats alone, and ends the
process only with a failure. -/
theorem call_up {p : MainPhase} (hup : p.Up) (hs : s.call argv p c = some (s', o)) :
    s'.adminName = s.adminName ∧ s'.serverName = s.serverName ∧ s'.port = s.port ∧
      s'.internalLevel = s.internalLevel ∧ s'.formats = s.formats ∧ s'.handlers = s.handlers ∧
      s.threads ≤ s'.threads ∧
      (s'.phase = .exited 1 ∨ s'.phase.Up ∧
        (s'.phase.Bound → s'.boundPort = some 8111 ∨ p.Bound ∧ s'.boundPort = s.boundPort)) := by
  unfold call at hs
  split at hs
  case h_1 => exact hup.elim
  case h_2 => exact hup.elim
  case h_3 => exact hup.elim
  case h_4 started =>
    -- `broadcast_agent_init`: one thread more, or none.
    cases hs
    exact ⟨rfl, rfl, rfl, rfl, rfl, rfl, Nat.le_add_right _ _, Or.inr ⟨trivial, fun hb => hb.elim⟩⟩
  case h_5 =>
    -- No socket: the process ends.
    cases hs
    exact ⟨rfl, rfl, rfl, rfl, rfl, rfl, le_rfl, Or.inl rfl⟩
  case h_6 fd =>
    cases hs
    exact ⟨rfl, rfl, rfl, rfl, rfl, rfl, le_rfl, Or.inr ⟨trivial, fun hb => hb.elim⟩⟩
  case h_7 sock ok =>
    -- `bind` is where the port comes from.
    cases hs
    cases ok with
    | false => exact ⟨rfl, rfl, rfl, rfl, rfl, rfl, le_rfl, Or.inl rfl⟩
    | true =>
        exact ⟨rfl, rfl, rfl, rfl, rfl, rfl, le_rfl, Or.inr ⟨trivial, fun _ => Or.inl rfl⟩⟩
  case h_8 sock ok =>
    cases hs
    cases ok with
    | false => exact ⟨rfl, rfl, rfl, rfl, rfl, rfl, le_rfl, Or.inl rfl⟩
    | true =>
        exact ⟨rfl, rfl, rfl, rfl, rfl, rfl, le_rfl,
          Or.inr ⟨trivial, fun _ => Or.inr ⟨trivial, rfl⟩⟩⟩
  case h_9 sock =>
    -- A failed `accept` leads to the shutdown, with the socket still bound.
    cases hs
    exact ⟨rfl, rfl, rfl, rfl, rfl, rfl, le_rfl,
      Or.inr ⟨trivial, fun _ => Or.inr ⟨trivial, rfl⟩⟩⟩
  case h_10 sock fd =>
    cases hs
    exact ⟨rfl, rfl, rfl, rfl, rfl, rfl, le_rfl,
      Or.inr ⟨trivial, fun _ => Or.inr ⟨trivial, rfl⟩⟩⟩
  case h_11 sock fd ok =>
    -- `pthread_create`: back to `accept`, with one thread more if it succeeds.
    split at hs <;> cases hs
    · exact ⟨rfl, rfl, rfl, rfl, rfl, rfl, Nat.le_add_right _ _,
        Or.inr ⟨trivial, fun _ => Or.inr ⟨trivial, rfl⟩⟩⟩
    · exact ⟨rfl, rfl, rfl, rfl, rfl, rfl, le_rfl,
        Or.inr ⟨trivial, fun _ => Or.inr ⟨trivial, rfl⟩⟩⟩
  case h_12 =>
    -- `main` turns the result of `application_Shutdown` round.
    cases hs
    exact ⟨rfl, rfl, rfl, rfl, rfl, rfl, le_rfl, Or.inl rfl⟩
  case h_13 => cases hs

end MainThread

/-! ## Signals -/

section

variable {argv : CommandLine} {s s' : MainThread} {t : Nat} {o : MainOut}

/-- A thread enters its handler, and that is all. -/
theorem mainStep_interrupt (hs : mainStep argv s (.interrupt t) = some (s', o)) :
    ∃ hin : t ∉ s.handlers.keys, s.phase.Alive ∧ t < s.threads ∧ o = [] ∧
      s' = { s with handlers := s.handlers.append t .entered hin } ∧ s'.phase = s.phase := by
  simp only [mainStep] at hs
  split at hs
  · rename_i hguard
    unfold MainThread.enter at hs
    split at hs <;> cases hs
    rename_i hin
    exact ⟨hin, hguard.1, hguard.2, rfl, rfl, rfl⟩
  · cases hs

/-- A thread takes the next step of its handler. -/
theorem mainStep_handler (hs : mainStep argv s (.handler t) = some (s', o)) :
    ∃ φ, s.handlers.get? t = some φ ∧ s.phase.Alive ∧ s' = (s.handlerStep t φ).1 ∧
      o = (s.handlerStep t φ).2 := by
  simp only [mainStep] at hs
  split at hs
  · rename_i halive
    obtain ⟨φ, hφ, heq⟩ := Option.map_eq_some_iff.mp hs
    exact ⟨φ, hφ, halive, (congrArg Prod.fst heq).symm, (congrArg Prod.snd heq).symm⟩
  · cases hs

/-- The handler works on the formats and on nothing else of the main thread. -/
theorem handlerStep_frame (s : MainThread) (t : Nat) (φ : HandlerPhase) :
    (s.handlerStep t φ).1.phase = s.phase ∧ (s.handlerStep t φ).1.threads = s.threads ∧
      (s.handlerStep t φ).1.formats.specificLogFormat = s.formats.specificLogFormat ∧
      ∀ t' φ', (s.handlerStep t φ).1.handlers.get? t' = some φ' → t' ≠ t →
        s.handlers.get? t' = some φ' := by
  refine ⟨by cases φ <;> rfl, by cases φ <;> rfl, by cases φ <;> rfl, ?_⟩
  intro t' φ' hget hne
  cases φ with
  | reloaded format =>
      have herase : (s.handlers.erase t).get? t' = some φ' := hget
      rwa [Table.get?_erase, if_neg hne] at herase
  | _ =>
      -- Its place in the handler is set, those of the others stay.
      have hset : (s.handlers.set t _).get? t' = some φ' := hget
      rwa [Table.get?_set, if_neg hne] at hset

/-- No step changes the formats of single levels. -/
theorem mainStep_specific {a : MainAct} (hs : mainStep argv s a = some (s', o)) :
    s'.formats.specificLogFormat = s.formats.specificLogFormat := by
  cases a with
  | call c =>
      simp only [mainStep] at hs
      split at hs
      · cases hs
      · unfold MainThread.call at hs
        split at hs
        case h_2 =>
          -- An option sets the general format at most.
          rename_i opt rest test hphase
          obtain rfl : s' = (s.evaluate rest test opt).1 :=
            (congrArg Prod.fst (Option.some.inj hs)).symm
          exact (MainThread.evaluate_frame s rest test opt).2.2.2
        case h_3 => cases hs; split <;> rfl
        case h_7 => cases hs; split <;> rfl
        case h_8 => cases hs; split <;> rfl
        case h_11 => split at hs <;> cases hs <;> rfl
        case h_13 => cases hs
        all_goals cases hs; rfl
  | interrupt t =>
      obtain ⟨-, -, -, -, rfl, -⟩ := mainStep_interrupt hs
      rfl
  | handler t =>
      obtain ⟨φ, -, -, rfl, -⟩ := mainStep_handler hs
      exact (handlerStep_frame s t φ).2.2.1

/-- Levels above `Warn` have no format of their own. -/
theorem target_general {h : History MainAct MainOut} (hrun : Run (mainMachine argv) anyStep h s)
    {level : LogLevel} (hlevel : 2 < level.toNat) :
    s.formats.target level = s.formats.generalLogFormat := by
  have hspecific : s.formats.specificLogFormat = LogCall.startupFormats.specificLogFormat := by
    refine hrun.invariant (I := fun _ s => s.formats.specificLogFormat =
      LogCall.startupFormats.specificLogFormat) rfl ?_
    intro h s a s' o hinv _ hs
    exact (mainStep_specific hs).trans hinv
  have hunused : (s.formats.specificLogFormat level).isInUse = false := by
    rw [hspecific]
    cases level <;> first | rfl | exact absurd hlevel (by decide)
  simp only [LogFormats.target, hunused, Bool.false_eq_true, if_false]

end

end LinuxChat
