import LinuxChat.Theorems.LogBounds
import LinuxChat.Theorems.Startup

/-!
# SIGINT while the server runs

The handler closes `sock_server`, which is -1, and puts a format of its own in
the place of the general one for one message. Nothing else in the main thread
notices a signal (`signals_erased`). The one backup of the format is enough as
long as one handler runs at a time. Once both copies, and what the handlers
under way have loaded, are the handler's format, every message without a
format of its own comes out bare from then on (`backup_enough`).
-/

namespace LinuxChat

open CMem Trace

variable {argv : CommandLine} {h : History MainAct MainOut} {s s' : MainThread} {a : MainAct}
  {o : MainOut}

/-! ## Signals left out -/

def MainAct.isCall : MainAct → Bool
  | call _ => true
  | interrupt _ => false
  | handler _ => false

/-- The same state, but for what the handlers work on. -/
def MainThread.mask (s : MainThread) (formats : LogFormats) : MainThread :=
  { s with formats, handlers := Table.empty }

namespace MainThread

/-- The options do not look at the formats. -/
theorem evaluate_mask (s : MainThread) (formats : LogFormats) (rest : List Opt) (test : PortTest)
    (opt : Opt) : ∃ formats',
      (s.mask formats).evaluate rest test opt =
        ((s.evaluate rest test opt).1.mask formats', (s.evaluate rest test opt).2) := by
  cases opt with
  | admin optarg =>
      refine ⟨formats, ?_⟩
      simp only [evaluate, mask]
      split
      · cases s.adminName.sprintf optarg.bytes <;> rfl
      · rfl
  | serverName optarg =>
      refine ⟨formats, ?_⟩
      simp only [evaluate, mask]
      split
      · cases s.serverName.sprintf optarg.bytes <;> rfl
      · rfl
  | port optarg =>
      refine ⟨formats, ?_⟩
      simp only [evaluate, mask]
      split
      · split <;> rfl
      · rfl
  | monochrome => exact ⟨_, rfl⟩
  | debugLevel optarg => exact ⟨_, rfl⟩
  | logFormat optarg => exact ⟨_, rfl⟩
  | help => exact ⟨_, rfl⟩
  | unknown => exact ⟨_, rfl⟩

/-- The other calls of the main thread do not read the formats either. -/
theorem call_mask {p : MainPhase} {c : MainCall} (formats : LogFormats)
    (hs : s.call argv p c = some (s', o)) :
    ∃ formats', (s.mask formats).call argv p c = some (s'.mask formats', o) := by
  unfold call at hs ⊢
  split at hs
  case h_1 => cases hs; exact ⟨_, rfl⟩
  case h_2 opt rest test =>
    -- An option: the only call that may change the formats itself, besides the next one.
    obtain ⟨formats', heq⟩ := s.evaluate_mask formats rest test opt
    rw [Option.some.inj hs] at heq
    exact ⟨formats', congrArg some heq⟩
  case h_3 =>
    -- Arguments that are no options: the help, or nothing.
    cases hs
    by_cases hargs : argv.nonOptions = []
    · simp only [if_pos hargs]
      exact ⟨_, rfl⟩
    · simp only [if_neg hargs]
      exact ⟨_, rfl⟩
  case h_4 => cases hs; exact ⟨_, rfl⟩
  case h_5 => cases hs; exact ⟨_, rfl⟩
  case h_6 => cases hs; exact ⟨_, rfl⟩
  case h_7 sock ok => cases hs; cases ok <;> exact ⟨_, rfl⟩
  case h_8 sock ok => cases hs; cases ok <;> exact ⟨_, rfl⟩
  case h_9 => cases hs; exact ⟨_, rfl⟩
  case h_10 => cases hs; exact ⟨_, rfl⟩
  case h_11 sock fd ok => cases ok <;> cases hs <;> exact ⟨_, rfl⟩
  case h_12 => cases hs; exact ⟨_, rfl⟩
  case h_13 => cases hs

end MainThread

/-- A signal changes nothing else, and closes at most -1. -/
theorem signal_mask (hsig : a.isCall = false) (hs : mainStep argv s a = some (s', o))
    (formats : LogFormats) :
    s'.mask formats = s.mask formats ∧ ∀ ev ∈ o, ev = .closed (-1) := by
  cases a with
  | call c => cases hsig
  | interrupt t =>
      obtain ⟨hin, -, -, rfl, rfl, -⟩ := mainStep_interrupt hs
      exact ⟨rfl, fun ev hev => absurd hev List.not_mem_nil⟩
  | handler t =>
      obtain ⟨φ, -, -, rfl, rfl⟩ := mainStep_handler hs
      -- Only the last step of a handler closes anything.
      cases φ with
      | reloaded format => exact ⟨rfl, fun ev hev => List.mem_singleton.mp hev⟩
      | _ => exact ⟨rfl, fun ev hev => absurd hev List.not_mem_nil⟩

/-- **Without its signals a run is a run that ends in the same state, but for the formats and the
handlers, with the same descriptors opened, closed and given to threads; what the signals close
is -1.** -/
theorem signals_erased (hrun : Run (mainMachine argv) anyStep h s) :
    (∃ formats, Run (mainMachine argv) anyStep (h.filter fun e => e.1.isCall) (s.mask formats)) ∧
      ∀ e ∈ h, e.1.isCall = false → ∀ ev ∈ e.2, ev = .closed (-1) := by
  induction hrun with
  | init => exact ⟨⟨_, .init⟩, fun e he => absurd he List.not_mem_nil⟩
  | @step h s a s' o _ _ hs ih =>
      obtain ⟨⟨formats, hrun'⟩, hclosed⟩ := ih
      cases hsig : a.isCall with
      | true =>
          -- A call is made in the run without signals too, from the masked state.
          cases a with
          | call c =>
              have hs' : mainStep argv s (.call c) = some (s', o) := hs
              simp only [mainStep] at hs'
              split at hs'
              · cases hs'
              · obtain ⟨formats', hcall⟩ := MainThread.call_mask formats hs'
                have hstep : (mainMachine argv).step (s.mask formats) (.call c) =
                    some (s'.mask formats', o) := by
                  have hmain : 0 ∉ (s.mask formats).handlers.keys := List.not_mem_nil
                  show mainStep argv (s.mask formats) (.call c) = _
                  simp only [mainStep, if_neg hmain]
                  exact hcall
                refine ⟨⟨formats', ?_⟩, ?_⟩
                · rw [List.filter_append]
                  exact hrun'.step trivial hstep
                · intro e he hcalls
                  rcases List.mem_append.mp he with he | he
                  · exact hclosed e he hcalls
                  · rw [List.mem_singleton.mp he] at hcalls
                    cases hcalls
          | interrupt t => cases hsig
          | handler t => cases hsig
      | false =>
          -- A signal is left out: the masked state is the one before it.
          obtain ⟨hmask, hout⟩ := signal_mask hsig hs formats
          have hnone : [(a, o)].filter (fun e => e.1.isCall) = [] :=
            List.filter_cons_of_neg (by rw [hsig]; exact Bool.false_ne_true)
          refine ⟨⟨formats, ?_⟩, ?_⟩
          · rw [List.filter_append, hnone, List.append_nil, hmask]
            exact hrun'
          · intro e he hcalls
            rcases List.mem_append.mp he with he | he
            · exact hclosed e he hcalls
            · rw [List.mem_singleton.mp he]
              exact hout

/-! ## The format and its backup -/

open InstalledFormat

def Opt.isMonochrome : Opt → Bool
  | monochrome => true
  | _ => false

/-- The general format some options leave. -/
def baseFormat (l : List Opt) : InstalledFormat :=
  if l.any Opt.isMonochrome then .monochrome else .general

theorem baseFormat_snoc (l : List Opt) (opt : Opt) :
    baseFormat (l ++ [opt]) = if opt.isMonochrome then .monochrome else baseFormat l := by
  unfold baseFormat
  rw [List.any_append, List.any_cons, List.any_nil, Bool.or_false]
  cases opt.isMonochrome <;> cases l.any Opt.isMonochrome <;> rfl

/-- What the only handler that runs has made of the two copies of the format `base`. -/
def HandlerPhase.Keeps (base : CString) (F : LogFormats) : HandlerPhase → Prop
  | entered => F.generalLogFormat = base
  | loaded format => F.generalLogFormat = base ∧ format = base
  | saved => F.generalLogFormat = base ∧ F.generalLogFormatBackup = base
  | bare => F.generalLogFormatBackup = base
  | reloaded format => format = base

/-- No thread enters its handler while another one is in it. -/
def oneHandler : Guard MainThread MainAct MainOut := fun _ s a =>
  match a with
  | .interrupt _ => s.handlers.keys = []
  | .call _ => True
  | .handler _ => True

instance (h : History MainAct MainOut) (s : MainThread) :
    (a : MainAct) → Decidable (oneHandler h s a)
  | .interrupt _ => inferInstanceAs (Decidable (_ = []))
  | .call _ | .handler _ => isTrue trivial

/-- The options `getopt_long` has yet to return. -/
def MainPhase.rest : MainPhase → List Opt
  | options rest => rest
  | _ => []

theorem MainPhase.Up.rest_eq {p : MainPhase} (hup : p.Up) : p.rest = [] := by
  cases p <;> first | rfl | exact hup.elim

theorem MainPhase.Up.alive {p : MainPhase} (hup : p.Up) : p.Alive := by
  cases p <;> first | exact trivial | exact hup.elim

/-- What holds of a process that is there, as long as one handler runs at a time. -/
structure Signalled (argv : CommandLine) (s : MainThread) : Prop where
  lt : ∀ t φ, s.handlers.get? t = some φ → t < s.threads
  unique : ∀ t t' φ φ', s.handlers.get? t = some φ → s.handlers.get? t' = some φ' → t = t'
  /-- Before the agent is started there is only the main thread. -/
  alone : ¬ s.phase.Up → s.threads = 1
  kept : ∃ done, argv.options = done ++ s.phase.rest ∧
    (s.handlers.keys = [] → s.formats.generalLogFormat = (baseFormat done).format) ∧
    ∀ t φ, s.handlers.get? t = some φ → φ.Keeps (baseFormat done).format s.formats

theorem get?_of_keys_nil {T : Table Nat HandlerPhase} (hT : T.keys = []) (t : Nat) :
    T.get? t = none := by
  rw [Table.get?_eq_none_iff, hT]
  exact List.not_mem_nil

/-- While there is one thread, its handler does not run when it does something else. -/
theorem Signalled.keys_eq_nil (hinv : Signalled argv s) (hup : ¬ s.phase.Up)
    (hmain : 0 ∉ s.handlers.keys) : s.handlers.keys = [] := by
  rw [List.eq_nil_iff_forall_not_mem]
  intro t ht
  obtain ⟨φ, hφ⟩ := Table.mem_keys_iff.mp ht
  have hlt := hinv.lt t φ hφ
  rw [hinv.alone hup] at hlt
  obtain rfl : t = 0 := by omega
  exact hmain ht

/-- A thread enters its handler, the only one. -/
theorem Signalled.interrupt {t : Nat} (hinv : Signalled argv s) (hnone : s.handlers.keys = [])
    (hs : mainStep argv s (.interrupt t) = some (s', o)) : Signalled argv s' := by
  obtain ⟨hin, -, hlt, -, rfl, -⟩ := mainStep_interrupt hs
  have honly : ∀ t' φ', (s.handlers.append t .entered hin).get? t' = some φ' →
      t' = t ∧ φ' = .entered := by
    intro t' φ' hget
    rw [Table.get?_append] at hget
    split at hget
    · rename_i heq
      exact ⟨heq, (Option.some.inj hget).symm⟩
    · rw [get?_of_keys_nil hnone] at hget
      cases hget
  refine ⟨?_, ?_, hinv.alone, ?_⟩
  · intro t' φ' hget
    rw [(honly t' φ' hget).1]
    exact hlt
  · intro t₁ t₂ φ₁ φ₂ h₁ h₂
    rw [(honly t₁ φ₁ h₁).1, (honly t₂ φ₂ h₂).1]
  · -- It finds the format as the options left it, since nobody else is in a handler.
    obtain ⟨done, hoptions, hout, -⟩ := hinv.kept
    refine ⟨done, hoptions, fun _ => hout hnone, ?_⟩
    intro t' φ' hget
    rw [(honly t' φ' hget).2]
    exact hout hnone

/-- One load or store of the handler, while the two copies are its own. -/
theorem keeps_handlerStep {base : CString} {t : Nat} {φ φ' : HandlerPhase}
    (hkeeps : φ.Keeps base s.formats) (hget : (s.handlerStep t φ).1.handlers.get? t = some φ') :
    φ'.Keeps base (s.handlerStep t φ).1.formats := by
  cases φ with
  | reloaded format =>
      -- Its last step, behind which it is gone.
      have herase : (s.handlers.erase t).get? t = some φ' := hget
      rw [Table.get?_erase, if_pos rfl] at herase
      cases herase
  | entered =>
      have hset : (s.handlers.set t (.loaded s.formats.generalLogFormat)).get? t = some φ' := hget
      rw [Table.get?_set, if_pos rfl] at hset
      cases hset
      exact ⟨hkeeps, hkeeps⟩
  | loaded format =>
      have hset : (s.handlers.set t .saved).get? t = some φ' := hget
      rw [Table.get?_set, if_pos rfl] at hset
      cases hset
      exact ⟨hkeeps.1, hkeeps.2⟩
  | saved =>
      -- The general format is the handler's now, its own is in the backup.
      have hset : (s.handlers.set t .bare).get? t = some φ' := hget
      rw [Table.get?_set, if_pos rfl] at hset
      cases hset
      exact hkeeps.2
  | bare =>
      have hset :
          (s.handlers.set t (.reloaded s.formats.generalLogFormatBackup)).get? t = some φ' :=
        hget
      rw [Table.get?_set, if_pos rfl] at hset
      cases hset
      exact hkeeps

/-- A handler that is left has put the format back. -/
theorem restored_handlerStep {base : CString} {t : Nat} {φ : HandlerPhase}
    (hkeeps : φ.Keeps base s.formats) (hgone : (s.handlerStep t φ).1.handlers.get? t = none) :
    (s.handlerStep t φ).1.formats.generalLogFormat = base := by
  cases φ with
  | reloaded format => exact hkeeps
  | _ =>
      have hset : (s.handlers.set t _).get? t = none := hgone
      rw [Table.get?_set, if_pos rfl] at hset
      cases hset

/-- The next step of the only handler. -/
theorem Signalled.handler {t : Nat} (hinv : Signalled argv s)
    (hs : mainStep argv s (.handler t) = some (s', o)) : Signalled argv s' := by
  obtain ⟨φ, hφ, -, rfl, -⟩ := mainStep_handler hs
  obtain ⟨hphase, hthreads, -, hothers⟩ := handlerStep_frame s t φ
  have honly : ∀ t' φ', (s.handlerStep t φ).1.handlers.get? t' = some φ' → t' = t := by
    intro t' φ' hget
    by_contra hne
    exact hne (hinv.unique t' t φ' φ (hothers t' φ' hget hne) hφ)
  refine ⟨?_, ?_, ?_, ?_⟩
  · intro t' φ' hget
    rw [honly t' φ' hget, hthreads]
    exact hinv.lt t φ hφ
  · intro t₁ t₂ φ₁ φ₂ h₁ h₂
    rw [honly t₁ φ₁ h₁, honly t₂ φ₂ h₂]
  · rw [hphase, hthreads]
    exact hinv.alone
  · obtain ⟨done, hoptions, -, hkept⟩ := hinv.kept
    refine ⟨done, ?_, ?_, ?_⟩
    · rw [hphase]
      exact hoptions
    · -- It was the last step, which stores the format it has kept.
      intro hnone
      exact restored_handlerStep (hkept t φ hφ) (get?_of_keys_nil hnone t)
    · intro t' φ' hget
      obtain rfl : t' = t := honly t' φ' hget
      exact keeps_handlerStep (hkept t' φ hφ) hget

/-- The formats behind an option that is passed. -/
theorem evaluate_formats (s : MainThread) (rest : List Opt) (test : PortTest) (opt : Opt)
    (halive : (s.evaluate rest test opt).1.phase.Alive) :
    (s.evaluate rest test opt).1.phase = .options rest ∧
      (s.evaluate rest test opt).1.formats =
        if opt.isMonochrome then s.formats.setFormatting monochrome.format else s.formats := by
  cases opt with
  | admin optarg =>
      revert halive
      simp only [MainThread.evaluate]
      split
      · cases s.adminName.sprintf optarg.bytes with
        | none => exact fun halive => absurd halive not_false
        | some b => exact fun _ => ⟨rfl, rfl⟩
      · exact fun halive => absurd halive not_false
  | serverName optarg =>
      revert halive
      simp only [MainThread.evaluate]
      split
      · cases s.serverName.sprintf optarg.bytes with
        | none => exact fun halive => absurd halive not_false
        | some b => exact fun _ => ⟨rfl, rfl⟩
      · exact fun halive => absurd halive not_false
  | port optarg =>
      revert halive
      simp only [MainThread.evaluate]
      split
      · split
        · exact fun _ => ⟨rfl, rfl⟩
        · exact fun halive => absurd halive not_false
      · exact fun halive => absurd halive not_false
  | monochrome => exact ⟨rfl, rfl⟩
  | debugLevel optarg => exact ⟨rfl, rfl⟩
  | logFormat optarg => exact absurd halive not_false
  | help => exact absurd halive not_false
  | unknown => exact absurd halive not_false

/-- A call, in a process that goes on. -/
theorem Signalled.call {c : MainCall} (hinv : Signalled argv s) (hmain : 0 ∉ s.handlers.keys)
    (hs : s.call argv s.phase c = some (s', o)) (halive : s'.phase.Alive) :
    Signalled argv s' := by
  obtain ⟨done, hoptions, hout, hkept⟩ := hinv.kept
  generalize hp : s.phase = p at hs hoptions
  by_cases hup : p.Up
  · -- Behind the command line no call touches the formats.
    obtain ⟨-, -, -, -, hformats, hhandlers, hthreads, hend | ⟨hup', -⟩⟩ :=
      MainThread.call_up hup hs
    · rw [hend] at halive
      exact halive.elim
    · refine ⟨?_, ?_, fun hno => absurd hup' hno, done, ?_, ?_, ?_⟩
      · intro t φ hget
        rw [hhandlers] at hget
        exact lt_of_lt_of_le (hinv.lt t φ hget) hthreads
      · rw [hhandlers]
        exact hinv.unique
      · rw [hup'.rest_eq, ← hup.rest_eq]
        exact hoptions
      · rw [hformats, hhandlers]
        exact hout
      · rw [hformats, hhandlers]
        exact hkept
  · -- Before it there is one thread, and it is not in its handler.
    have hup' : ¬ s.phase.Up := by rwa [hp]
    have hnil := hinv.keys_eq_nil hup' hmain
    have hone := hinv.alone hup'
    cases p with
    | options rest =>
        obtain ⟨test, rfl, ⟨rfl, rfl, -⟩ | ⟨opt, rest', rfl, hr⟩⟩ := MainThread.call_options hs
        · -- `getopt_long` has returned -1.
          exact ⟨hinv.lt, hinv.unique, fun _ => hone, done, hoptions, hout, hkept⟩
        · -- It has returned `opt`, which joins the options that are done.
          obtain rfl : s' = (s.evaluate rest' test opt).1 := congrArg Prod.fst hr
          obtain ⟨hrest, hformats⟩ := evaluate_formats s rest' test opt halive
          obtain ⟨-, hthreads, hhandlers, -⟩ := MainThread.evaluate_frame s rest' test opt
          refine ⟨?_, ?_, fun _ => hthreads.trans hone, done ++ [opt], ?_, ?_, ?_⟩
          · rw [hhandlers, hthreads]
            exact hinv.lt
          · rw [hhandlers]
            exact hinv.unique
          · rw [hrest, List.append_assoc]
            exact hoptions
          · intro _
            rw [hformats, baseFormat_snoc]
            cases opt.isMonochrome with
            | true => rfl
            | false => exact hout hnil
          · intro t φ hget
            rw [hhandlers, get?_of_keys_nil hnil] at hget
            cases hget
    | nonOptions =>
        obtain ⟨rfl, -, rfl⟩ := MainThread.call_nonOptions hs
        by_cases hargs : argv.nonOptions = []
        · rw [if_pos hargs]
          exact ⟨hinv.lt, hinv.unique, fun hno' => absurd trivial hno', done, hoptions, hout,
            hkept⟩
        · rw [if_neg hargs] at halive
          exact halive.elim
    | agentInit => exact absurd trivial hup
    | socket => exact absurd trivial hup
    | bind sock => exact absurd trivial hup
    | listen sock => exact absurd trivial hup
    | accept sock => exact absurd trivial hup
    | create sock fd => exact absurd trivial hup
    | shutdown => exact absurd trivial hup
    | exited status => cases hs
    | fault => cases hs

/-- What a step keeps, as long as one handler runs at a time. -/
theorem Signalled.step (hinv : Signalled argv s) (hone : oneHandler h s a)
    (hs : mainStep argv s a = some (s', o)) (halive : s'.phase.Alive) : Signalled argv s' := by
  cases a with
  | call c =>
      simp only [mainStep] at hs
      split at hs
      · cases hs
      · rename_i hmain
        exact hinv.call hmain hs halive
  | interrupt t => exact hinv.interrupt hone hs
  | handler t => exact hinv.handler hs

/-- A process that takes a step is there. -/
theorem mainStep_alive (hs : mainStep argv s a = some (s', o)) : s.phase.Alive := by
  cases a with
  | call c =>
      simp only [mainStep] at hs
      split at hs
      · cases hs
      · cases hp : s.phase <;> rw [hp] at hs <;> first | exact trivial | cases hs
  | interrupt t =>
      obtain ⟨-, halive, -⟩ := mainStep_interrupt hs
      exact halive
  | handler t =>
      obtain ⟨-, -, halive, -⟩ := mainStep_handler hs
      exact halive

theorem signalled_start (argv : CommandLine) : Signalled argv (.start argv) := by
  have hnone : ∀ t, (MainThread.start argv).handlers.get? t = none := fun _ => rfl
  refine ⟨?_, ?_, fun _ => rfl, [], rfl, fun _ => rfl, ?_⟩
  · intro t φ hget
    rw [hnone] at hget
    cases hget
  · intro t t' φ φ' hget
    rw [hnone] at hget
    cases hget
  · intro t φ hget
    rw [hnone] at hget
    cases hget

/-- Every run with one handler at a time. -/
theorem signalled_run (hrun : Run (mainMachine argv) oneHandler h s) (halive : s.phase.Alive) :
    Signalled argv s := by
  induction hrun with
  | init => exact signalled_start argv
  | step _ hone hs ih => exact (ih (mainStep_alive hs)).step hone hs halive

/-! ## Bare messages -/

/-- The handler's format is the message alone. -/
theorem expansion_interrupt (c : LogCall) :
    c.expansion c.env interrupt.format.bytes = c.pre.bytes ++ c.messageFormatted :=
  List.append_nil _

/-- The formats of a server put something around it. -/
theorem around_base_pos (c : LogCall) (l : List Opt) : 0 < (baseFormat l).around c := by
  unfold baseFormat
  split <;> simp only [around] <;> omega

/-- The message comes out without level, place and end of line. -/
def Bare (F : LogFormats) (c : LogCall) : Prop :=
  c.expanded F = c.pre.bytes ++ c.messageFormatted

/-- As long as one handler runs at a time, the format is back where none runs. -/
theorem not_bare_of_oneHandler (hrun : Run (mainMachine argv) oneHandler h s)
    (halive : s.phase.Alive) (hout : s.handlers.keys = []) {c : LogCall}
    (hlevel : 2 < c.level.toNat) : ¬ Bare s.formats c := by
  have hinv := signalled_run hrun halive
  obtain ⟨done, -, hbase, -⟩ := hinv.kept
  intro hbare
  have hlen := congrArg List.length hbare
  have hpos := around_base_pos c done
  rw [LogCall.expanded, target_general (hrun.mono fun _ _ _ _ => trivial) hlevel, hbase hout,
    LogCall.length_expansion_format, List.length_append, LogCall.messageFormatted,
    List.length_take, Nat.min_comm] at hlen
  omega

/-- What a handler has loaded is the handler's format. -/
def HandlerPhase.Lost : HandlerPhase → Prop
  | loaded format => format = interrupt.format
  | reloaded format => format = interrupt.format
  | entered => True
  | saved => True
  | bare => True

/-- Both copies of the general format, and what the handlers under way have loaded of it, are the
handler's format. -/
structure BothBare (s : MainThread) : Prop where
  general : s.formats.generalLogFormat = interrupt.format
  backup : s.formats.generalLogFormatBackup = interrupt.format
  loaded : ∀ t φ, s.handlers.get? t = some φ → φ.Lost

/-- A handler finds nothing else to load or to store. -/
theorem BothBare.handler {t : Nat} {φ : HandlerPhase} (hs : BothBare s)
    (hφ : s.handlers.get? t = some φ) : BothBare (s.handlerStep t φ).1 := by
  have hset : ∀ ψ : HandlerPhase, ψ.Lost → ∀ t' φ', (s.handlers.set t ψ).get? t' = some φ' →
      φ'.Lost := by
    intro ψ hψ t' φ' hget
    rw [Table.get?_set] at hget
    split at hget
    · rw [← Option.some.inj hget]
      exact hψ
    · exact hs.loaded t' φ' hget
  -- Each load finds the handler's format, and so does each store of what was loaded.
  cases φ with
  | entered => exact ⟨hs.general, hs.backup, hset _ hs.general⟩
  | loaded format => exact ⟨hs.general, hs.loaded t _ hφ, hset _ trivial⟩
  | saved => exact ⟨rfl, hs.backup, hset _ trivial⟩
  | bare => exact ⟨hs.general, hs.backup, hset _ hs.backup⟩
  | reloaded format =>
      refine ⟨hs.loaded t _ hφ, hs.backup, ?_⟩
      intro t' φ' hget
      have herase : (s.handlers.erase t).get? t' = some φ' := hget
      rw [Table.get?_erase] at herase
      split at herase
      · cases herase
      · exact hs.loaded t' φ' herase

/-- Nothing brings the format back. -/
theorem BothBare.step (hbare : BothBare s) (hup : s.phase.Up)
    (hs : mainStep argv s a = some (s', o)) : BothBare s' ∧ (s'.phase.Alive → s'.phase.Up) := by
  cases a with
  | call c =>
      simp only [mainStep] at hs
      split at hs
      · cases hs
      · -- No call behind the command line touches the formats.
        obtain ⟨-, -, -, -, hformats, hhandlers, -, hend⟩ := MainThread.call_up hup hs
        refine ⟨⟨?_, ?_, ?_⟩, ?_⟩
        · rw [hformats]; exact hbare.general
        · rw [hformats]; exact hbare.backup
        · rw [hhandlers]; exact hbare.loaded
        · intro halive
          rcases hend with hend | ⟨hup', -⟩
          · rw [hend] at halive
            exact halive.elim
          · exact hup'
  | interrupt t =>
      -- A new handler has loaded nothing yet.
      obtain ⟨hin, -, -, -, rfl, -⟩ := mainStep_interrupt hs
      refine ⟨⟨hbare.general, hbare.backup, ?_⟩, fun _ => hup⟩
      intro t' φ' hget
      rw [Table.get?_append] at hget
      split at hget
      · rw [← Option.some.inj hget]
        exact trivial
      · exact hbare.loaded t' φ' hget
  | handler t =>
      obtain ⟨φ, hφ, -, rfl, -⟩ := mainStep_handler hs
      refine ⟨hbare.handler hφ, fun _ => ?_⟩
      rw [(handlerStep_frame s t φ).1]
      exact hup

/-- Once both copies are bare, they stay so in every continuation of the run. -/
theorem bothBare_continues {k : History MainAct MainOut} {t : MainThread} (hbare : BothBare s)
    (hup : s.phase.Up) (hcont : Continues (mainMachine argv) anyStep h s k t)
    (halive : t.phase.Alive) : BothBare t := by
  have hboth : BothBare t ∧ t.phase.Up := by
    induction hcont with
    | refl => exact ⟨hbare, hup⟩
    | step _ _ hs ih =>
        obtain ⟨hb, hu⟩ := ih (mainStep_alive hs)
        obtain ⟨hb', hu'⟩ := hb.step hu hs
        exact ⟨hb', hu' halive⟩
  exact hboth.1

/-- **The one backup of the format is enough for one handler at a time.** In every run in which no
thread enters its handler while another one is in it, a message of a level without a format of its
own is not bare where no handler runs; once both copies are the handler's, as two handlers at a
time can make them, every such message is bare, whatever is done from then on. -/
theorem backup_enough (argv : CommandLine) :
    (∀ h s, Run (mainMachine argv) oneHandler h s → s.phase.Alive → s.handlers.keys = [] →
      ∀ c : LogCall, 2 < c.level.toNat → ¬ Bare s.formats c) ∧
    ∀ h s k t, Run (mainMachine argv) anyStep h s → s.phase.Up → BothBare s →
      Continues (mainMachine argv) anyStep h s k t → t.phase.Alive →
        ∀ c : LogCall, 2 < c.level.toNat → Bare t.formats c := by
  constructor
  · intro h s hrun halive hout c hlevel
    exact not_bare_of_oneHandler hrun halive hout hlevel
  · intro h s k t hrun hup hbare hcont halive c hlevel
    have ht := bothBare_continues hbare hup hcont halive
    rw [Bare, LogCall.expanded, target_general (hrun.append hcont) hlevel, ht.general]
    exact expansion_interrupt c

/-- The agent is started, and `t` gets a signal and comes `n` steps far in its handler. -/
def signalled (t n : Nat) : List MainAct := .interrupt t :: List.replicate n (.handler t)

/-- Up to the first call behind `broadcast_agent_init`. -/
def agentStarted : List MainAct :=
  [.call (.getopt .noSocket), .call .nonOptions, .call (.agentInit true)]

/-- `BothBare` as a test, for replays. -/
def MainThread.bothBare (s : MainThread) : Bool :=
  decide (s.formats.generalLogFormat.bytes = lit "$C") &&
    decide (s.formats.generalLogFormatBackup.bytes = lit "$C") &&
    s.handlers.entries.all fun e =>
      match e.2 with
      | .loaded format | .reloaded format => decide (format.bytes = lit "$C")
      | .entered | .saved | .bare => true

theorem bothBare_of_test (hs : s.bothBare = true) : BothBare s := by
  have heq : ∀ {format : CString}, format.bytes = lit "$C" → format = interrupt.format :=
    fun h => CString.ext h
  simp only [MainThread.bothBare, Bool.and_eq_true, decide_eq_true_eq, List.all_eq_true] at hs
  obtain ⟨⟨hgeneral, hbackup⟩, hloaded⟩ := hs
  refine ⟨heq hgeneral, heq hbackup, fun t φ hget => ?_⟩
  have hφ := hloaded (t, φ) (Table.get?_eq_some_iff.mp hget)
  cases φ with
  | loaded format => exact heq (of_decide_eq_true hφ)
  | reloaded format => exact heq (of_decide_eq_true hφ)
  | entered => exact trivial
  | saved => exact trivial
  | bare => exact trivial

/-- After the signal to one thread a message has its level; a signal to the main thread while the
agent's handler runs, and every later message of the kind is bare. -/
theorem backup_enough_two :
    (∃ h s, Run (mainMachine ⟨[], []⟩) oneHandler h s ∧ .interrupt 1 ∈ h.map Prod.fst ∧
      ∀ c : LogCall, c.level = .info → ¬ Bare s.formats c) ∧
    ∃ h s, Run (mainMachine ⟨[], []⟩) anyStep h s ∧ s.handlers.keys = [] ∧
      ∀ c : LogCall, c.level = .info → Bare s.formats c := by
  have hinfo : ∀ c : LogCall, c.level = .info → 2 < c.level.toNat := by
    intro c hc
    rw [hc]
    decide
  constructor
  · -- One handler from beginning to end.
    obtain ⟨h, s, hrun, htest⟩ := Run.exists_of_replay (M := mainMachine ⟨[], []⟩)
      (G := oneHandler) (agentStarted ++ signalled 1 5)
      (fun h s => decide (s.phase.Alive ∧ s.handlers.keys = [] ∧ .interrupt 1 ∈ h.map Prod.fst))
      (by decide +kernel)
    obtain ⟨halive, hout, hmem⟩ := of_decide_eq_true htest
    exact ⟨h, s, hrun, hmem, fun c hc =>
      (backup_enough _).1 h s hrun halive hout c (hinfo c hc)⟩
  · -- The main thread's handler saves what the agent's has set.
    obtain ⟨h, s, k, t, hrun, hcont, htest⟩ := Continues.exists_of_replay
      (M := mainMachine ⟨[], []⟩) (G := anyStep) (K := anyStep)
      (agentStarted ++ signalled 1 3 ++ signalled 0 2)
      [.handler 1, .handler 1, .handler 0, .handler 0, .handler 0]
      (fun _ s _ t => decide (s.phase.Up) && s.bothBare &&
        decide (t.phase.Alive ∧ t.handlers.keys = [])) (by decide +kernel)
    simp only [Bool.and_eq_true, decide_eq_true_eq] at htest
    obtain ⟨⟨hup, hbare⟩, halive, hout⟩ := htest
    exact ⟨h ++ k, t, hrun.append hcont, hout, fun c hc =>
      (backup_enough _).2 h s k t hrun hup (bothBare_of_test hbare) hcont halive c (hinfo c hc)⟩

/-- A signal between two connections. -/
theorem signals_erased_between : ∃ h s formats, Run (mainMachine ⟨[], []⟩) anyStep h s ∧
    .interrupt 0 ∈ h.map Prod.fst ∧
    Run (mainMachine ⟨[], []⟩) anyStep (h.filter fun e => e.1.isCall) (s.mask formats) := by
  obtain ⟨h, s, hrun, htest⟩ := Run.exists_of_replay (M := mainMachine ⟨[], []⟩) (G := anyStep)
    [.call (.getopt .noSocket), .call .nonOptions, .call (.agentInit true),
      .call (.socket (some 4)), .call (.bind true), .call (.listen true),
      .call (.accept (some 5)), .interrupt 0, .handler 0, .handler 0, .handler 0, .handler 0,
      .handler 0, .call (.pthreadCreate true)]
    (fun h _ => decide (.interrupt 0 ∈ h.map Prod.fst)) (by decide +kernel)
  obtain ⟨⟨formats, hrun'⟩, -⟩ := signals_erased hrun
  exact ⟨h, s, formats, hrun, of_decide_eq_true htest, hrun'⟩

end LinuxChat
