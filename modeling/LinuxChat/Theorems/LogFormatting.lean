import LinuxChat.Logic.LogExpansion

/-!
# Log messages and the table of tags

logger.h documents what each tag of a format stands for. The switch of
`log_output` prints something else for three of them: `$N` separates with
slashes and has nothing behind the day, `$L` is the bare name of the level,
`$J` has three places. `$A` behind a `$I` shows the file name as `basename`
left it. A call passes the documented text exactly if its format meets none
of this (`meetsDocs_iff`).
-/

namespace LinuxChat

open CMem Printf

/-! ## `basename` -/

/-- A path with a name in it is cut behind the name. -/
theorem basename_of_name {path : List UInt8} (h : path.rdropWhile (· = 47) ≠ []) :
    basename path =
      ((path.rdropWhile (· = 47)).rtakeWhile (· ≠ 47), path.rdropWhile (· = 47)) := by
  have hempty : path ≠ [] := by
    intro hempty
    rw [hempty] at h
    exact h rfl
  rw [basename, if_neg hempty, if_neg h]

/-- A path without one is left as it is. -/
theorem basename_of_no_name {path : List UInt8} (h : path.rdropWhile (· = 47) = []) :
    (basename path).2 = path := by
  by_cases hempty : path = []
  · rw [basename, if_pos hempty]
  · rw [basename, if_neg hempty, if_pos h]

/-- What `basename` cuts off are slashes. -/
theorem exists_eq_basename_append (path : List UInt8) :
    ∃ n, path = (basename path).2 ++ List.replicate n 47 := by
  by_cases h : path.rdropWhile (· = 47) = []
  · exact ⟨0, by rw [basename_of_no_name h, List.replicate_zero, List.append_nil]⟩
  · have hslashes : path.rtakeWhile (· = 47) =
        List.replicate (path.rtakeWhile (· = 47)).length 47 := by
      rw [List.eq_replicate_iff]
      refine ⟨rfl, ?_⟩
      intro b hb
      simpa using List.mem_rtakeWhile_imp hb
    refine ⟨(path.rtakeWhile (· = 47)).length, ?_⟩
    rw [basename_of_name h, ← hslashes]
    exact List.rdropWhile_append_rtakeWhile.symm

/-- Of the string it leaves, `basename` finds the same name, and leaves it as it is. -/
theorem basename_again (path : List UInt8) : basename (basename path).2 = basename path := by
  by_cases h : path.rdropWhile (· = 47) = []
  · rw [basename_of_no_name h]
  · have hagain : (path.rdropWhile (· = 47)).rdropWhile (· = 47) = path.rdropWhile (· = 47) :=
      List.rdropWhile_idempotent _ _
    rw [basename_of_name h, basename_of_name (hagain.symm ▸ h), hagain]

/-! ## What the tags find -/

/-- Behind these tags the string at `fileName` is cut if `basename` was called, and the clock has
been read for each `$J`. -/
theorem FormatEnv.foldl_next (ts : List LogTag) (env : FormatEnv) :
    (ts.foldl FormatEnv.next env).fileName =
        (if .shortenedFileName ∈ ts then (basename env.fileName).2 else env.fileName) ∧
      ∀ k, (ts.foldl FormatEnv.next env).clock k = env.clock (ts.count .milliSecond + k) := by
  induction ts generalizing env with
  | nil => exact ⟨rfl, fun k => by rw [List.count_nil, Nat.zero_add]; rfl⟩
  | cons t ts ih =>
      obtain ⟨hname, hclock⟩ := ih (env.next t)
      rw [List.foldl_cons]
      cases t
      case shortenedFileName =>
          refine ⟨?_, fun k => hclock k⟩
          have hagain := congrArg Prod.snd (basename_again env.fileName)
          rw [hname, if_pos List.mem_cons_self]
          show (if _ then (basename (basename env.fileName).2).2 else (basename env.fileName).2) = _
          rw [hagain, ite_self]
      case milliSecond =>
          refine ⟨by rw [hname]; simp [FormatEnv.next], fun k => ?_⟩
          rw [hclock, List.count_cons_self]
          show env.clock (_ + 1) = _
          congr 1
          omega
      all_goals
        refine ⟨by rw [hname]; simp [FormatEnv.next], fun k => ?_⟩
        rw [hclock, List.count_cons_of_ne (by decide)]
        rfl

namespace LogCall

variable {c : LogCall} {env : FormatEnv} {F : LogFormats}

/-! ## The documented texts -/

/-- The table of logger.h. A pattern such as `hh:mm:ss` has a place for each digit. -/
def documented (c : LogCall) (env : FormatEnv) : LogTag → List UInt8
  -- hh:mm:ss
  | .time => padded 2 c.locTime.tmHour ++ lit ":" ++ padded 2 c.locTime.tmMin ++ lit ":" ++
      padded 2 c.locTime.tmSec
  | .hour => padded 2 c.locTime.tmHour
  | .minute => padded 2 c.locTime.tmMin
  | .second => padded 2 c.locTime.tmSec
  -- mm
  | .milliSecond => padded 2 (milliseconds (env.clock 0))
  -- yyyy:mm:dd:
  | .date => padded 4 (c.locTime.tmYear + 1900) ++ lit ":" ++
      padded 2 (c.locTime.tmMon + 1 : Nat) ++ lit ":" ++ padded 2 c.locTime.tmMday ++ lit ":"
  | .dateYear => padded 4 (c.locTime.tmYear + 1900)
  | .dateMonth => padded 2 (c.locTime.tmMon + 1 : Nat)
  | .dateDay => padded 2 c.locTime.tmMday
  | .funcName => c.funcName.bytes
  | .fileName => c.fileName.bytes
  | .shortenedFileName => (basename c.fileName.bytes).1
  | .line => padded 0 c.line
  | .threadId => numeral 16 c.threadId.toUInt32.toNat
  -- [TRACE], [DEBUG] … [FATAL]
  | .logLevel => lit "[" ++ levelStr c.level ++ lit "]"
  | .alignment => if c.level = .info ∨ c.level = .warn then lit " " else []
  | .colorBegin => consoleColourStrings c.level
  | .colorEnd => consoleColourReset
  -- the message, with the prefix of its macro
  | .text => c.pre.bytes ++ c.messageFormatted
  | .newLine => lit "\n"

/-- The text the table gives for a format. -/
def documentedText (c : LogCall) (env : FormatEnv) (fmt : List UInt8) : List UInt8 :=
  logMarkup.expand c.documented FormatEnv.next env fmt

/-- The tags of a format, each with what it finds. -/
def pieces (c : LogCall) (fmt : List UInt8) : List (FormatEnv × LogTag) :=
  Markup.pieces FormatEnv.next c.env (logMarkup.tags fmt)

/-- The string at `fileName`, while the call runs. -/
def Reached (c : LogCall) (env : FormatEnv) : Prop :=
  env.fileName = c.fileName.bytes ∨ env.fileName = (basename c.fileName.bytes).2

theorem reached_of_mem_pieces {fmt : List UInt8} {p : FormatEnv × LogTag}
    (hp : p ∈ c.pieces fmt) : c.Reached p.1 := by
  obtain ⟨before, behind, -, henv⟩ := Markup.mem_pieces.mp hp
  have hname := (FormatEnv.foldl_next before c.env).1
  rw [← henv] at hname
  split at hname
  · exact Or.inr hname
  · exact Or.inl hname

/-- For all other tags the switch prints what is documented. -/
theorem tagText_eq_documented (henv : c.Reached env) {t : LogTag} (hdate : t ≠ .date)
    (hlevel : t ≠ .logLevel) (hmilli : t ≠ .milliSecond) (hname : t ≠ .fileName) :
    c.tagText env t = c.documented env t := by
  cases t
  case date => exact absurd rfl hdate
  case logLevel => exact absurd rfl hlevel
  case milliSecond => exact absurd rfl hmilli
  case fileName => exact absurd rfl hname
  case shortenedFileName =>
      show (basename env.fileName).1 = (basename c.fileName.bytes).1
      rcases henv with henv | henv
      · rw [henv]
      · rw [henv, basename_again]
  case alignment =>
      unfold tagText command documented
      dsimp only
      split <;> rfl
  all_goals rfl

/-! ## Where they differ, seen by counting -/

/-- The string at `fileName` is the file name, or the file name without slashes at its end. -/
theorem Reached.exists_fileName_eq (henv : c.Reached env) :
    ∃ n, c.fileName.bytes = env.fileName ++ List.replicate n 47 := by
  rcases henv with henv | henv
  · exact ⟨0, by rw [henv, List.replicate_zero, List.append_nil]⟩
  · rw [henv]
    exact exists_eq_basename_append c.fileName.bytes

/-- Where no date and no milliseconds are asked for, the table has at least what is printed. -/
theorem tagText_sublist (henv : c.Reached env) {t : LogTag} (hdate : t ≠ .date)
    (hmilli : t ≠ .milliSecond) : (c.tagText env t).Sublist (c.documented env t) := by
  by_cases hlevel : t = .logLevel
  · subst hlevel
    exact (List.sublist_append_right _ _).trans (List.sublist_append_left _ _)
  · by_cases hname : t = .fileName
    · subst hname
      obtain ⟨n, hn⟩ := henv.exists_fileName_eq
      show env.fileName.Sublist c.fileName.bytes
      rw [hn]
      exact List.sublist_append_left _ _
    · rw [tagText_eq_documented henv hdate hlevel hmilli hname]

theorem count_tagText_le (henv : c.Reached env) {t : LogTag} (hdate : t ≠ .date) {b : UInt8}
    (hb : ¬ NumberByte b) : (c.tagText env t).count b ≤ (c.documented env t).count b := by
  by_cases hmilli : t = .milliSecond
  · subst hmilli
    have hnone : (padded 3 (milliseconds (env.clock 0))).count b = 0 := count_padded hb _ _
    show (padded 3 (milliseconds (env.clock 0))).count b ≤ _
    omega
  · exact (tagText_sublist henv hdate hmilli).count_le b

theorem count_colon_date : (c.tagText env .date).count 58 = 0 ∧
    (c.documented env .date).count 58 = 3 := by
  have hnum : ¬ NumberByte 58 := by decide
  have hcolon : (lit ":").count 58 = 1 := by decide
  have hslash : (lit "/").count 58 = 0 := by decide
  constructor
  · show List.count 58 (_ ++ _ ++ _ ++ _ ++ _) = 0
    simp only [List.count_append, count_padded hnum, hslash]
  · show List.count 58 (_ ++ _ ++ _ ++ _ ++ _ ++ _) = 3
    simp only [List.count_append, count_padded hnum, hcolon]

/-- Colons tell a date, whatever else there is. -/
theorem count_colon_le (henv : c.Reached env) (t : LogTag) :
    (c.tagText env t).count 58 ≤ (c.documented env t).count 58 := by
  by_cases hdate : t = .date
  · subst hdate
    rw [count_colon_date.1]
    exact Nat.zero_le _
  · exact count_tagText_le henv hdate (by decide)

/-- Brackets tell a level. -/
theorem count_bracket_logLevel :
    (c.tagText env .logLevel).count 91 ≠ (c.documented env .logLevel).count 91 := by
  show (levelStr c.level).count 91 ≠ (lit "[" ++ levelStr c.level ++ lit "]").count 91
  cases c.level <;> decide

/-- Slashes tell a file name that was cut. -/
theorem fileName_eq_of_count (henv : c.Reached env)
    (h : (c.tagText env .fileName).count 47 = (c.documented env .fileName).count 47) :
    env.fileName = c.fileName.bytes := by
  obtain ⟨n, hn⟩ := henv.exists_fileName_eq
  replace h : env.fileName.count 47 = c.fileName.bytes.count 47 := h
  rw [hn, List.count_append, List.count_replicate_self] at h
  have hzero : n = 0 := by omega
  rw [hn, hzero, List.replicate_zero, List.append_nil]

theorem tagText_milliSecond_eq_iff :
    c.tagText env .milliSecond = c.documented env .milliSecond ↔
      100 ≤ milliseconds (env.clock 0) := by
  show padded (2 + 1) (milliseconds (env.clock 0)) = padded 2 (milliseconds (env.clock 0)) ↔
    10 ^ 2 ≤ milliseconds (env.clock 0)
  exact padded_succ_eq_iff (by decide)

/-! ## From the texts to their pieces -/

theorem ne_date_of_expansion_eq {fmt : List UInt8}
    (h : c.expansion c.env fmt = c.documentedText c.env fmt) :
    ∀ p ∈ c.pieces fmt, p.2 ≠ .date := by
  intro p hp hdate
  have hcolon := Markup.measure_text_eq (fun _ _ => List.count_append)
    (fun q hq => count_colon_le (reached_of_mem_pieces hq) q.2) (congrArg (List.count 58) h) p hp
  rw [hdate, count_colon_date.1, count_colon_date.2] at hcolon
  exact absurd hcolon (by decide)

theorem count_eq_of_expansion_eq {fmt : List UInt8}
    (h : c.expansion c.env fmt = c.documentedText c.env fmt) {b : UInt8} (hb : ¬ NumberByte b) :
    ∀ p ∈ c.pieces fmt, (c.tagText p.1 p.2).count b = (c.documented p.1 p.2).count b := by
  have hdate := ne_date_of_expansion_eq h
  exact Markup.measure_text_eq (fun _ _ => List.count_append)
    (fun q hq => count_tagText_le (reached_of_mem_pieces hq) (hdate q hq) hb)
    (congrArg (List.count b) h)

theorem eq_documented_of_ne_milliSecond {fmt : List UInt8}
    (h : c.expansion c.env fmt = c.documentedText c.env fmt) :
    ∀ p ∈ c.pieces fmt, p.2 ≠ .milliSecond → c.tagText p.1 p.2 = c.documented p.1 p.2 := by
  intro ⟨env, t⟩ hp hmilli
  have henv := reached_of_mem_pieces hp
  have hlevel : t ≠ .logLevel := by
    intro hlevel
    subst hlevel
    exact count_bracket_logLevel (count_eq_of_expansion_eq h (by decide) _ hp)
  by_cases hname : t = .fileName
  · subst hname
    exact fileName_eq_of_count henv (count_eq_of_expansion_eq h (by decide) _ hp)
  · exact tagText_eq_documented henv (ne_date_of_expansion_eq h _ hp) hlevel hmilli hname

/-- The texts agree only if all their pieces do. -/
theorem pieces_eq_of_expansion_eq {fmt : List UInt8}
    (h : c.expansion c.env fmt = c.documentedText c.env fmt) :
    ∀ p ∈ c.pieces fmt, c.tagText p.1 p.2 = c.documented p.1 p.2 := by
  have hothers := eq_documented_of_ne_milliSecond h
  have hshorter : ∀ p ∈ c.pieces fmt,
      (c.documented p.1 p.2).length ≤ (c.tagText p.1 p.2).length := by
    intro ⟨env, t⟩ hp
    by_cases hmilli : t = .milliSecond
    · subst hmilli
      show (padded 2 (milliseconds (env.clock 0))).length ≤
        (padded 3 (milliseconds (env.clock 0))).length
      exact length_padded_le (by decide)
    · rw [hothers _ hp hmilli]
  have hlength := Markup.measure_text_eq (fun _ _ => List.length_append) hshorter
    (congrArg List.length h.symm)
  intro ⟨env, t⟩ hp
  by_cases hmilli : t = .milliSecond
  · subst hmilli
    show padded (2 + 1) (milliseconds (env.clock 0)) = padded 2 (milliseconds (env.clock 0))
    exact padded_succ_eq_of_length (hlength _ hp).symm
  · exact hothers _ hp hmilli

/-! ## The formats that agree with the table -/

/-- No `$N` and no `$L`; each `$J` is read late enough in its second to have three digits; no `$A`
behind a `$I`, unless `basename` leaves the file name as it is. -/
structure FollowsTable (c : LogCall) (fmt : List UInt8) : Prop where
  noDate : LogTag.date ∉ logMarkup.tags fmt
  noLogLevel : LogTag.logLevel ∉ logMarkup.tags fmt
  milliSeconds : ∀ k < (logMarkup.tags fmt).count .milliSecond, 100 ≤ milliseconds (c.clock k)
  fileName : [LogTag.shortenedFileName, .fileName].Sublist (logMarkup.tags fmt) →
    (basename c.fileName.bytes).2 = c.fileName.bytes

theorem FollowsTable.pieces_eq {fmt : List UInt8} (h : c.FollowsTable fmt) :
    ∀ p ∈ c.pieces fmt, c.tagText p.1 p.2 = c.documented p.1 p.2 := by
  intro ⟨env, t⟩ hp
  have henv := reached_of_mem_pieces hp
  obtain ⟨before, behind, htags, hstate⟩ := Markup.mem_pieces.mp hp
  obtain ⟨hname, hclock⟩ := FormatEnv.foldl_next before c.env
  rw [← hstate] at hname hclock
  have hmem : t ∈ logMarkup.tags fmt := by
    rw [htags]
    exact List.mem_append_right _ List.mem_cons_self
  by_cases hmilli : t = .milliSecond
  · subst hmilli
    apply tagText_milliSecond_eq_iff.mpr
    rw [hclock, Nat.add_zero]
    apply h.milliSeconds
    rw [htags, List.count_append, List.count_cons_self]
    omega
  · by_cases hfile : t = .fileName
    · subst hfile
      show env.fileName = c.fileName.bytes
      rw [hname]
      split
      · rename_i hcalled
        apply h.fileName
        rw [htags]
        exact (List.singleton_sublist.mpr hcalled).append
          (List.singleton_sublist.mpr List.mem_cons_self)
      · rfl
    · apply tagText_eq_documented henv _ _ hmilli hfile
      · intro hdate
        exact h.noDate (hdate ▸ hmem)
      · intro hlevel
        exact h.noLogLevel (hlevel ▸ hmem)

/-- The `k`-th occurrence. -/
theorem exists_eq_append_of_lt_count {α : Type} [DecidableEq α] {a : α} {l : List α} {k : Nat}
    (h : k < l.count a) : ∃ before behind, l = before ++ a :: behind ∧ before.count a = k := by
  induction l generalizing k with
  | nil => exact absurd h (by simp)
  | cons b l ih =>
      by_cases hb : b = a
      · subst hb
        cases k with
        | zero => exact ⟨[], l, rfl, rfl⟩
        | succ k =>
            rw [List.count_cons_self] at h
            obtain ⟨before, behind, rfl, hcount⟩ := ih (by omega : k < l.count b)
            exact ⟨b :: before, behind, rfl, by rw [List.count_cons_self, hcount]⟩
      · rw [List.count_cons_of_ne hb] at h
        obtain ⟨before, behind, rfl, hcount⟩ := ih h
        exact ⟨b :: before, behind, rfl, by rw [List.count_cons_of_ne hb, hcount]⟩

theorem followsTable_of_pieces_eq {fmt : List UInt8}
    (h : ∀ p ∈ c.pieces fmt, c.tagText p.1 p.2 = c.documented p.1 p.2) : c.FollowsTable fmt := by
  have hpiece : ∀ before t behind, logMarkup.tags fmt = before ++ t :: behind →
      c.tagText (before.foldl FormatEnv.next c.env) t =
        c.documented (before.foldl FormatEnv.next c.env) t :=
    fun before t behind htags => h _ (Markup.mem_pieces.mpr ⟨before, behind, htags, rfl⟩)
  refine ⟨?_, ?_, ?_, ?_⟩
  · intro hdate
    obtain ⟨before, behind, htags⟩ := List.append_of_mem hdate
    have hcolon := congrArg (List.count 58) (hpiece _ _ _ htags)
    rw [count_colon_date.1, count_colon_date.2] at hcolon
    exact absurd hcolon (by decide)
  · intro hlevel
    obtain ⟨before, behind, htags⟩ := List.append_of_mem hlevel
    exact count_bracket_logLevel (congrArg (List.count 91) (hpiece _ _ _ htags))
  · intro k hk
    obtain ⟨before, behind, htags, hcount⟩ := exists_eq_append_of_lt_count hk
    have hmilli := tagText_milliSecond_eq_iff.mp (hpiece _ _ _ htags)
    rwa [(FormatEnv.foldl_next before c.env).2, hcount] at hmilli
  · intro hsub
    obtain ⟨first, second, htags, hcalled, hname⟩ := List.cons_sublist_iff.mp hsub
    obtain ⟨between, behind, rfl⟩ := List.append_of_mem (List.singleton_sublist.mp hname)
    rw [← List.append_assoc] at htags
    have hfile : ((first ++ between).foldl FormatEnv.next c.env).fileName = c.fileName.bytes :=
      hpiece _ _ _ htags
    rwa [(FormatEnv.foldl_next _ _).1, if_pos (List.mem_append_left _ hcalled)] at hfile

/-- The switch prints what is documented exactly for these formats. -/
theorem expansion_eq_documentedText_iff {fmt : List UInt8} :
    c.expansion c.env fmt = c.documentedText c.env fmt ↔ c.FollowsTable fmt := by
  constructor
  · intro h
    exact followsTable_of_pieces_eq (pieces_eq_of_expansion_eq h)
  · intro h
    exact Markup.expand_congr h.pieces_eq

/-! ## The call -/

/-- The call stays inside its arrays, and what it passes to `output_Message` is the documented
text of its format; of a format in two parts it is the text of the first and, read where the
first ends, that of the second. -/
def MeetsDocs (F : LogFormats) (c : LogCall) : Prop :=
  ∃ r, c.logOutput F = some r ∧ ∀ text, r = .passed text →
    text = c.documentedText c.env (F.target c.level).bytes ∧
    ∀ f g, (F.target c.level).bytes = f ++ g → logMarkup.closed f = true →
      text = c.documentedText c.env f ++
        c.documentedText (logMarkup.after FormatEnv.next c.env f) g

theorem documentedText_append {f : List UInt8} (hf : logMarkup.closed f = true) (g : List UInt8) :
    c.documentedText c.env (f ++ g) =
      c.documentedText c.env f ++ c.documentedText (logMarkup.after FormatEnv.next c.env f) g :=
  Markup.expand_append hf c.env g

/-- What the switch makes of a format in two parts, whatever it prints for its tags. -/
theorem passed_append {text f g : List UInt8} (h : c.logOutput F = some (.passed text))
    (hfmt : (F.target c.level).bytes = f ++ g) (hf : logMarkup.closed f = true) :
    text = c.expansion c.env f ++ c.expansion (logMarkup.after FormatEnv.next c.env f) g := by
  rw [(eq_expanded_of_passed h).1, expanded, hfmt]
  exact Markup.expand_append hf c.env g

/-- Nothing set but this general format. -/
def generalFormat (fmt : CString) : LogFormats :=
  ⟨fmt, fmt, fun _ => ⟨false, .empty⟩⟩

/-- A message from `main`, on the ninth of March. -/
def onlineCall : LogCall where
  level := .info
  pre := .empty
  funcName := ⟨lit "main", by decide⟩
  fileName := ⟨lit "src/main.c", by decide⟩
  line := 42
  threadId := 0xb5bff640
  message := ⟨lit "online", by decide⟩
  printed := ⟨lit "online", by decide⟩
  printed_nil := fun h => absurd h (by decide)
  locTime := ⟨6, 5, 4, 9, 2, 124, by decide, by decide, by decide, by decide, by decide⟩
  clock := fun _ => 7000000
  clock_lt := fun _ => by decide
  formatBuffer := .zero maxMessageSize

/-- A format that is a date. -/
def dateFormat : LogFormats := generalFormat ⟨lit "$N", by decide⟩

/-- The date is not written as documented. -/
theorem not_meetsDocs_date :
    onlineCall.logOutput dateFormat = some (.passed (lit "2024/03/09")) ∧
      onlineCall.documentedText onlineCall.env (lit "$N") = lit "2024:03:09:" ∧
      ¬ onlineCall.MeetsDocs dateFormat := by
  have hpassed : onlineCall.logOutput dateFormat = some (.passed (lit "2024/03/09")) := by
    rw [logOutput_eq]
    decide +kernel
  have hdocs : onlineCall.documentedText onlineCall.env (lit "$N") = lit "2024:03:09:" := by
    decide +kernel
  refine ⟨hpassed, hdocs, ?_⟩
  intro ⟨r, hr, htext⟩
  rw [hpassed] at hr
  have hsame := (htext _ (Option.some_inj.mp hr.symm)).1
  exact absurd (hsame.trans hdocs) (by decide)

/-- **A call whose documented text fits meets the documentation exactly if it returns at once or
its format asks for nothing the table describes otherwise.** -/
theorem meetsDocs_iff (F : LogFormats) (c : LogCall)
    (hlen : (c.documentedText c.env (F.target c.level).bytes).length < maxMessageSize) :
    c.MeetsDocs F ↔ c.ReturnsAtOnce ∨ c.FollowsTable (F.target c.level).bytes := by
  unfold MeetsDocs
  rw [logOutput_eq]
  by_cases hreturn : c.ReturnsAtOnce
  · rw [if_pos hreturn]
    refine ⟨fun _ => Or.inl hreturn, fun _ => ⟨.nothing, rfl, ?_⟩⟩
    intro text hpassed
    cases hpassed
  · rw [if_neg hreturn, ← expansion_eq_documentedText_iff]
    constructor
    · intro ⟨r, hr, htext⟩
      right
      split at hr
      · exact (htext _ (Option.some_inj.mp hr.symm)).1
      · cases hr
    · rintro (hnow | heq)
      · exact absurd hnow hreturn
      · have hfit : (c.expanded F).length < maxMessageSize := by
          rw [expanded, heq]
          exact hlen
        rw [if_pos hfit]
        refine ⟨_, rfl, ?_⟩
        intro text hpassed
        injection hpassed with hpassed
        have htext : text = c.documentedText c.env (F.target c.level).bytes :=
          hpassed.symm.trans heq
        refine ⟨htext, ?_⟩
        intro f g hfmt hf
        rw [htext, hfmt, documentedText_append hf]

/-- A time of day, the message and a new line: none of it is in dispute. -/
theorem meetsDocs_iff_time : onlineCall.MeetsDocs (generalFormat ⟨lit "[$T] $C$Z", by decide⟩) :=
  (meetsDocs_iff (generalFormat ⟨lit "[$T] $C$Z", by decide⟩) onlineCall (by decide +kernel)).mpr
    (Or.inr ⟨by decide +kernel, by decide +kernel, by decide +kernel, by decide +kernel⟩)

end LogCall

end LinuxChat
