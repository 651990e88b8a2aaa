import LinuxChat.Model.LogFormat

/-!
# What the loop of log_output writes

`expansion` is the format with every tag replaced by what the switch prints
for it. The loop leaves it in `message_out` if it fits there with its
terminator, and leaves an array otherwise (`logOutput_eq`, `logOutput_eq_none`):
a single text that is too long for `Format_Buffer` makes the whole too long.
-/

namespace LinuxChat

open CMem Printf

/-! ## No text holds a NUL -/

theorem zero_notMem_consoleColourStrings (l : LogLevel) : 0 ∉ consoleColourStrings l := by
  cases l <;> decide

theorem zero_notMem_levelStr (l : LogLevel) : 0 ∉ levelStr l := by cases l <;> decide

theorem zero_notMem_padded (width : Nat) (i : Int) : 0 ∉ padded width i :=
  notMem_padded (by decide) width i

theorem zero_notMem_basename {path : List UInt8} (h : 0 ∉ path) :
    0 ∉ (basename path).1 ∧ 0 ∉ (basename path).2 := by
  have hcut : 0 ∉ path.rdropWhile (· = 47) :=
    fun hmem => h ((List.rdropWhile_prefix _ _).subset hmem)
  have hdot : 0 ∉ lit "." := by decide
  have hslash : 0 ∉ lit "/" := by decide
  unfold basename
  split
  · exact ⟨hdot, h⟩
  · split
    · exact ⟨hslash, h⟩
    · exact ⟨fun hmem => hcut ((List.rtakeWhile_suffix _ _).subset hmem), hcut⟩

theorem FormatEnv.zero_notMem_next {env : FormatEnv} (h : 0 ∉ env.fileName) (t : LogTag) :
    0 ∉ (env.next t).fileName := by
  cases t
  case shortenedFileName => exact (zero_notMem_basename h).2
  all_goals exact h

namespace LogCall

variable {c : LogCall} {env : FormatEnv}

theorem zero_notMem_messageFormatted (c : LogCall) : 0 ∉ c.messageFormatted :=
  fun hmem => c.printed.nulFree (List.mem_of_mem_take hmem)

/-- What the switch prints for a tag. -/
def tagText (c : LogCall) (env : FormatEnv) (t : LogTag) : List UInt8 := (c.command env t).getD []

/-- The format as the switch reads it. -/
def expansion (c : LogCall) (env : FormatEnv) (fmt : List UInt8) : List UInt8 :=
  logMarkup.expand c.tagText FormatEnv.next env fmt

theorem zero_notMem_tagText (h : 0 ∉ env.fileName) (t : LogTag) : 0 ∉ c.tagText env t := by
  have happ : ∀ {a b : List UInt8}, 0 ∉ a → 0 ∉ b → 0 ∉ a ++ b := by
    intro a b ha hb
    rw [List.mem_append]
    exact not_or.mpr ⟨ha, hb⟩
  have hcolon : 0 ∉ lit ":" := by decide
  have hslash : 0 ∉ lit "/" := by decide
  have hblank : 0 ∉ lit " " := by decide
  cases t
  case colorBegin => exact zero_notMem_consoleColourStrings c.level
  case colorEnd => show 0 ∉ consoleColourReset; decide
  case text => exact happ c.pre.nulFree c.zero_notMem_messageFormatted
  case logLevel => exact zero_notMem_levelStr c.level
  case newLine => show 0 ∉ lit "\n"; decide
  case alignment =>
      unfold tagText command
      dsimp only
      split
      · exact hblank
      · exact List.not_mem_nil
  case funcName => exact c.funcName.nulFree
  case fileName => exact h
  case threadId => exact zero_notMem_numeral (by decide) (by decide) _
  case shortenedFileName => exact (zero_notMem_basename h).1
  case time =>
      exact happ (happ (happ (happ (zero_notMem_padded _ _) hcolon)
        (zero_notMem_padded _ _)) hcolon) (zero_notMem_padded _ _)
  case date =>
      exact happ (happ (happ (happ (zero_notMem_padded _ _) hslash) (zero_notMem_padded _ _))
        hslash) (zero_notMem_padded _ _)
  all_goals
    unfold tagText command
    exact zero_notMem_padded _ _

end LogCall

/-! ## One step -/

/-- A run that leaves the string `s` in `message_out` and the environment `env`, if `s` fits, and
leaves an array otherwise. -/
def Gives (r : Option FormatState) (s : List UInt8) (env : FormatEnv) : Prop :=
  (s.length < maxMessageSize →
    ∃ st, r = some st ∧ st.messageOut.Reads s ∧ st.env = env) ∧
  (maxMessageSize ≤ s.length → r = none)

namespace Gives

variable {r : Option FormatState} {s t : List UInt8} {env env' : FormatEnv}

/-- What goes wrong in the first part goes wrong in both. -/
theorem bind {k : FormatState → Option FormatState} (h : Gives r s env)
    (hk : ∀ st, st.messageOut.Reads s → st.env = env → Gives (k st) (s ++ t) env') :
    Gives (r.bind k) (s ++ t) env' := by
  by_cases hfit : s.length < maxMessageSize
  · obtain ⟨st, rfl, hreads, henv⟩ := h.1 hfit
    exact hk st hreads henv
  · rw [not_lt] at hfit
    rw [h.2 hfit]
    refine ⟨?_, fun _ => rfl⟩
    intro hboth
    rw [List.length_append] at hboth
    omega

theorem of_reads {st : FormatState} (h : st.messageOut.Reads s) : Gives (some st) s st.env := by
  refine ⟨fun _ => ⟨st, rfl, h, rfl⟩, ?_⟩
  intro hfull
  have hlt := h.length_lt
  omega

end Gives

variable {c : LogCall} {st : FormatState} {s text : List UInt8}

theorem FormatState.formatMessage_gives (h : st.messageOut.Reads s) (htext : 0 ∉ text) :
    Gives (st.formatMessage text) (s ++ text) st.env := by
  unfold Gives FormatState.formatMessage
  rw [List.length_append]
  by_cases hshort : text.length < maxMessageSize
  · obtain ⟨formatBuffer, hsprintf, hbuffer⟩ := Buf.sprintf_reads st.formatBuffer htext hshort
    rw [hsprintf, Option.bind_some]
    constructor
    · intro hfit
      obtain ⟨messageOut, hstrcat, hout⟩ := h.strcat hbuffer.cstr hfit
      rw [hstrcat]
      exact ⟨_, rfl, hout, rfl⟩
    · intro hfull
      rw [h.strcat_eq_none hbuffer.cstr hfull]
      rfl
  · rw [Buf.sprintf_eq_none st.formatBuffer (not_lt.mp hshort)]
    exact ⟨fun hfit => by omega, fun _ => rfl⟩

namespace LogCall

/-- A letter that is no tag is skipped. -/
theorem formatTag_of_none {b : UInt8} (hb : LogTag.ofByte b = none) :
    c.formatTag b st = some st := by
  rw [formatTag, hb]

theorem formatTag_gives {b : UInt8} {t : LogTag} (hb : LogTag.ofByte b = some t)
    (h : st.messageOut.Reads s) (hname : 0 ∉ st.env.fileName) :
    Gives (c.formatTag b st) (s ++ c.tagText st.env t) (st.env.next t) := by
  have hnul := zero_notMem_tagText (c := c) hname t
  rw [formatTag, hb]
  unfold tagText at hnul ⊢
  dsimp only
  cases hcommand : c.command st.env t with
  | none =>
      rw [Option.getD_none, List.append_nil]
      have hskip : Gives (some { st with env := st.env.next t }) s (st.env.next t) :=
        Gives.of_reads h
      exact hskip
  | some text =>
      rw [hcommand] at hnul
      have hmacro : Gives ({ st with env := st.env.next t }.formatMessage text) (s ++ text)
          (st.env.next t) := FormatState.formatMessage_gives h hnul
      exact hmacro

/-- Any other character is appended. -/
theorem strncat_gives {a : UInt8} {rest : List UInt8} (h : st.messageOut.Reads s) (ha : a ≠ 0) :
    Gives ((st.messageOut.strncat (a :: rest) 1).map fun messageOut =>
      { st with messageOut := messageOut }) (s ++ [a]) st.env := by
  unfold Gives
  rw [List.length_append, List.length_singleton]
  constructor
  · intro hfit
    obtain ⟨messageOut, hstrncat, hout⟩ :
        ∃ b', st.messageOut.strncat (a :: rest) 1 = some b' ∧ b'.Reads (s ++ [a]) :=
      h.strncat_one ha hfit
    rw [hstrncat]
    exact ⟨_, rfl, hout, rfl⟩
  · intro hfull
    rw [h.strncat_one_eq_none ha hfull]
    rfl

/-! ## The loop -/

/-- At a character that starts no tag the loop appends it and goes on behind it. -/
theorem formatFrom_char {fmt : List UInt8} {x : Nat} {a : UInt8} {rest : List UInt8}
    (hdrop : fmt.drop x = a :: rest) (ha : a ≠ 36 ∨ rest = []) :
    c.formatFrom fmt x st =
      ((st.messageOut.strncat (a :: rest) 1).map fun messageOut =>
        { st with messageOut := messageOut }).bind (c.formatFrom fmt (x + 1)) := by
  have hx : x < fmt.length := by
    by_contra hend
    rw [List.drop_eq_nil_of_le (not_lt.mp hend)] at hdrop
    exact List.cons_ne_nil a rest hdrop.symm
  have hlen : fmt.length = x + 1 + rest.length := by
    have hcount := congrArg List.length hdrop
    rw [List.length_drop, List.length_cons] at hcount
    omega
  have hno : ¬ (fmt.getD x 0 = 36 ∧ x + 1 < fmt.length) := by
    rintro ⟨hesc, hmore⟩
    rcases ha with ha | rfl
    · exact ha (by rw [← hesc, List.getD_eq_getElem?_getD, ← List.head?_drop, hdrop]; rfl)
    · rw [List.length_nil] at hlen
      omega
  rw [formatFrom, if_pos hx, if_neg hno, hdrop, Option.bind_map]
  rfl

/-- Behind a `$` the loop reads a letter and goes on behind it. -/
theorem formatFrom_esc {fmt : List UInt8} {x : Nat} {b : UInt8} {rest : List UInt8}
    (hdrop : fmt.drop x = 36 :: b :: rest) :
    c.formatFrom fmt x st = (c.formatTag b st).bind (c.formatFrom fmt (x + 2)) := by
  have hlen := congrArg List.length hdrop
  rw [List.length_drop, List.length_cons, List.length_cons] at hlen
  have hx : x < fmt.length := by omega
  have hesc : fmt.getD x 0 = 36 := by
    rw [List.getD_eq_getElem?_getD, ← List.head?_drop, hdrop]
    rfl
  have hnext : fmt.getD (x + 1) 0 = b := by
    rw [List.getD_eq_getElem?_getD, ← List.head?_drop, ← List.drop_drop, hdrop]
    rfl
  rw [formatFrom, if_pos hx, if_pos ⟨hesc, by omega⟩, hnext]

theorem formatFrom_end {fmt : List UInt8} {x : Nat} (hdrop : fmt.drop x = []) :
    c.formatFrom fmt x st = some st := by
  rw [List.drop_eq_nil_iff] at hdrop
  rw [formatFrom, if_neg (by omega)]

theorem drop_succ {fmt : List UInt8} {x : Nat} {a : UInt8} {rest : List UInt8}
    (hdrop : fmt.drop x = a :: rest) : fmt.drop (x + 1) = rest := by
  rw [← List.drop_drop, hdrop]
  rfl

/-- **The loop writes the expansion of what it has not read yet.** -/
theorem formatFrom_gives {fmt rest : List UInt8} {x : Nat} (hdrop : fmt.drop x = rest)
    (hfmt : 0 ∉ fmt) (h : st.messageOut.Reads s) (hname : 0 ∉ st.env.fileName) :
    Gives (c.formatFrom fmt x st) (s ++ c.expansion st.env rest)
      (logMarkup.after FormatEnv.next st.env rest) := by
  have hrest : ∀ b ∈ rest, b ≠ 0 := by
    intro b hb hzero
    rw [← hdrop, hzero] at hb
    exact hfmt (List.mem_of_mem_drop hb)
  induction rest using Markup.format_induction (M := logMarkup) generalizing x st s with
  | nil =>
      rw [formatFrom_end hdrop, expansion, Markup.expand_nil, List.append_nil]
      exact Gives.of_reads h
  | last =>
      rw [formatFrom_char hdrop (Or.inr rfl), expansion, Markup.expand_singleton,
        ← List.append_nil (s ++ _)]
      apply Gives.bind (strncat_gives h (hrest _ (List.mem_singleton_self _)))
      intro st' hreads henv
      rw [formatFrom_end (drop_succ hdrop), List.append_nil, Markup.after, Markup.tags_singleton,
        List.foldl_nil, ← henv]
      exact Gives.of_reads hreads
  | char a rest ha ih =>
      rw [formatFrom_char hdrop (Or.inl ha), expansion, Markup.expand_cons_of_ne ha,
        List.append_cons, Markup.after, Markup.tags_cons_of_ne ha]
      apply Gives.bind (strncat_gives h (hrest a List.mem_cons_self))
      intro st' hreads henv
      rw [← henv]
      exact ih (drop_succ hdrop) hreads (henv ▸ hname)
        (fun b hb => hrest b (List.mem_cons_of_mem _ hb))
  | other b rest hb ih =>
      rw [formatFrom_esc hdrop, formatTag_of_none hb, Option.bind_some, expansion,
        Markup.expand_esc_of_none hb, Markup.after, Markup.tags_esc_of_none hb]
      exact ih (drop_succ (drop_succ hdrop)) h hname
        (fun b hb => hrest b (List.mem_cons_of_mem _ (List.mem_cons_of_mem _ hb)))
  | tag b t rest hb ih =>
      rw [formatFrom_esc hdrop, expansion, Markup.expand_esc_of_some hb, ← List.append_assoc,
        Markup.after, Markup.tags_esc_of_some hb, List.foldl_cons]
      apply Gives.bind (formatTag_gives hb h hname)
      intro st' hreads henv
      rw [← henv]
      exact ih (drop_succ (drop_succ hdrop)) hreads (henv ▸ FormatEnv.zero_notMem_next hname t)
        (fun b hb => hrest b (List.mem_cons_of_mem _ (List.mem_cons_of_mem _ hb)))

/-! ## The call -/

/-- The format in force, expanded for this call. -/
def expanded (F : LogFormats) (c : LogCall) : List UInt8 :=
  c.expansion c.env (F.target c.level).bytes

/-- **A call that formats its message passes the expansion of its format, if that fits into
`message_out`, and leaves an array otherwise.** -/
theorem logOutput_eq (F : LogFormats) (c : LogCall) :
    c.logOutput F =
      if c.ReturnsAtOnce then some .nothing
      else if (c.expanded F).length < maxMessageSize then some (.passed (c.expanded F))
      else none := by
  have hgives : Gives (c.formatFrom (F.target c.level).bytes 0
      ⟨.zero maxMessageSize, c.formatBuffer, c.env⟩) ([] ++ c.expanded F)
      (logMarkup.after FormatEnv.next c.env (F.target c.level).bytes) :=
    formatFrom_gives List.drop_zero (F.target c.level).nulFree (Buf.reads_zero (by decide))
      c.fileName.nulFree
  rw [List.nil_append] at hgives
  by_cases hreturn : c.ReturnsAtOnce
  · rw [logOutput, if_pos hreturn, if_pos hreturn]
  · rw [logOutput, if_neg hreturn, if_neg hreturn]
    split
    · rename_i hfit
      obtain ⟨st, hst, hreads, -⟩ := hgives.1 hfit
      rw [hst, Option.map_some, hreads.cstr]
    · rename_i hfull
      rw [hgives.2 (not_lt.mp hfull)]
      rfl

theorem eq_expanded_of_passed {F : LogFormats} {c : LogCall} {text : List UInt8}
    (h : c.logOutput F = some (.passed text)) :
    text = c.expanded F ∧ text.length < maxMessageSize := by
  rw [logOutput_eq] at h
  split at h
  · cases h
  · split at h
    · rename_i hfit
      injection h with h
      injection h with h
      rw [← h]
      exact ⟨rfl, hfit⟩
    · cases h

end LogCall

end LinuxChat
