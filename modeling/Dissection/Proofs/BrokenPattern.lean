import Dissection.Proofs.Invocation
import Dissection.Proofs.LongNumeral
import Dissection.Proofs.PlaceholderNotation
import Dissection.Proofs.Registration
import Dissection.Proofs.Rendering

/-!
# Patterns that cannot be compiled

What is wrong with a pattern is reported, with one exception: a slot with more digits than are
read.  It has no report, so nothing of what is said of a broken pattern holds of such a one.  A
registration that fails for it does not name its source, and checking patterns breaks off at it.
It counts only if every placeholder in front of it can be read, since of several faults the first
is reported.

Every other broken pattern is reported with its text, when a filter is registered with its source
too, and when patterns are checked it is reported and the next one is checked.

## Main definitions

* `Pattern.Overlong` — a text that asks for a slot that is too long.
* `Pattern.Error.ToldBy` — the report of an error in a pattern.
* `CommandLine.Check.Says` — what is written about a pattern.

## Main statements

* `Pattern.overlong_iff`, `Pattern.not_overlong` — which texts ask for too much.
* `Pattern.exists_toldBy_iff` — which errors are reported.
* `CommandLine.Check.checkAll_append` — patterns are checked one after another.
* `CommandLine.Check.reported_unless_overlong` — compiling, registering and checking.
-/

namespace Dissection

open Text

/-! ## Slots that are too long -/

/-- A number that is not above one that can be shown can be shown. -/
theorem Numeral.isShown_of_le {m n : Nat} (h : m ≤ n) (hn : isShown n = true) :
    isShown m = true := by
  have hlimit : (ofNat n).length ≤ limit := of_decide_eq_true hn
  have hlt := (Nat.length_toDigits_le_iff (by decide) (by decide)).1 hlimit
  exact decide_eq_true
    ((Nat.length_toDigits_le_iff (by decide) (by decide)).2 (Nat.lt_of_le_of_lt h hlt))

namespace Placeholder

variable {raw : Text} {digits : Nat}

theorem IsSlot.isDigit {order : Text} (h : IsSlot order) : ∀ c ∈ order, c.isDigit = true :=
  fun c hc => Digit.isSome_ascii?_iff.1 (h.2 c hc)

/-- The digits of a slot that is too long stand in a row. -/
theorem TooLong.hasRun (h : TooLong raw digits) : raw.HasRun digits ∧ Numeral.limit < digits := by
  cases h with
  | @slot name order hname hslot hlong =>
    have hsuffix : order <:+ '+' :: (name ++ '/' :: order) := by
      refine List.suffix_cons_iff.2 (.inr (List.suffix_append_of_suffix ?_))
      exact List.suffix_cons _ _
    exact ⟨⟨order, hsuffix.isInfix, rfl, hslot.isDigit⟩, hlong⟩

/-- The slot of a placeholder that is read can be shown. -/
theorem isShown_of_parse {q : Placeholder} {slot : Nat} (h : parse raw = .ok q)
    (hslot : q.modifier.slot? = some slot) : Numeral.isShown slot = true := by
  have hmodifier : q.modifier = .appendAt slot := by
    cases hq : q.modifier <;> rw [hq] at hslot <;> cases hslot
    rfl
  obtain ⟨hwell, zeros, hraw⟩ := written_of_parse h (by simp [hmodifier])
  rw [hmodifier, written] at hraw
  rw [hraw, parse_appendAt hwell.unmarked (isSlot_zeros zeros slot).slash_notMem,
    Traversal.map_eq_ok_iff] at h
  obtain ⟨found, hread, -⟩ := h
  obtain ⟨-, -, hlength⟩ := readSlot_eq_ok_iff.1 hread
  rw [List.length_append] at hlength
  exact decide_eq_true (Nat.le_trans (Nat.le_add_left _ _) hlength)

end Placeholder

namespace Pattern

variable {text : Text} {e : Error} {p : Pattern}

/-- A text asks for a slot with more digits than are read, and every placeholder in front of that
one can be read. -/
def Overlong (text : Text) : Prop :=
  ∃ leading before part after digits, Decomposes text leading (before ++ part :: after) ∧
    (∀ other ∈ before, ∃ placeholder, Placeholder.parse other.1 = .ok placeholder) ∧
      Placeholder.TooLong part.1 digits

/-- Compiling gives up on such a text, and on no other. -/
theorem overlong_iff :
    Overlong text ↔ ∃ digits, compile text = .error (.placeholder (.slotTooLong digits)) := by
  simp only [Overlong, compile_eq_placeholder_iff, Placeholder.parse_eq_slotTooLong_iff]
  constructor
  · rintro ⟨leading, before, part, after, digits, h⟩
    exact ⟨digits, leading, before, part, after, h⟩
  · rintro ⟨digits, leading, before, part, after, h⟩
    exact ⟨leading, before, part, after, digits, h⟩

/-- The text of a placeholder stands in the text that is taken apart. -/
theorem Decomposes.infix_of_mem {leading : Text} {parts : List (Text × Text)} {part : Text × Text}
    (h : Decomposes text leading parts) (hpart : part ∈ parts) : part.1 <:+: text := by
  obtain ⟨before, after, rfl⟩ := List.append_of_mem hpart
  refine ⟨leading ++ gluedParts before ++ opening,
    closing ++ (part.2 ++ gluedParts after), ?_⟩
  rw [h.glued, Pattern.glued]
  simp [gluedParts]

/-- A text asks for too much only if more digits stand in a row than a slot may have. -/
theorem not_overlong (h : ∀ count, text.HasRun count → count ≤ Numeral.limit) :
    ¬ Overlong text := by
  rintro ⟨leading, before, part, after, digits, hd, -, hlong⟩
  obtain ⟨⟨run, hrun, hlength, hdigits⟩, hlimit⟩ := hlong.hasRun
  have hinfix := hrun.trans (hd.infix_of_mem (List.mem_append_right before List.mem_cons_self))
  exact absurd (h digits ⟨run, hinfix, hlength, hdigits⟩) (Nat.not_le_of_lt hlimit)

/-! ## Reports -/

/-- A report of an error in a pattern: it is one of a field, says what the error says, and has
the pattern and its source. -/
structure Error.ToldBy (e : Error) (text : Text) (source : Value) (report : Report) : Prop where
  kind : report.kind = .field
  message : report.message = e.message
  pattern : report.context.pattern = some text
  source : report.context.sourceField = source

/-- An error without a report is a slot that is too long. -/
theorem Error.report?_eq_none_iff {pattern : Option Text} {source : Value} :
    e.report? pattern source = none ↔ ∃ digits, e = .placeholder (.slotTooLong digits) := by
  cases e with
  | unterminated u => simp [Error.report?]
  | placeholder q => cases q <;> simp [Error.report?]

theorem Error.toldBy_of_report? {source : Value} {report : Report}
    (h : e.report? (some text) source = some report) : e.ToldBy text source report := by
  cases e with
  | unterminated u =>
    cases h
    exact ⟨rfl, rfl, rfl, rfl⟩
  | placeholder q =>
    cases q with
    | slotTooLong digits => cases h
    | appendWithIndirect | severalMarks | badSlot =>
      cases h
      exact ⟨rfl, rfl, rfl, rfl⟩

/-- An error of compiling has no report exactly if the text asks for too much. -/
theorem report?_eq_none_iff_overlong (h : compile text = .error e) {pattern : Option Text}
    {source : Value} : e.report? pattern source = none ↔ Overlong text := by
  simp only [overlong_iff, h, Except.error.injEq, Error.report?_eq_none_iff]

/-- An error of compiling is reported unless the text asks for too much. -/
theorem exists_toldBy_iff (h : compile text = .error e) (source : Value) :
    (∃ report, e.report? (some text) source = some report ∧ e.ToldBy text source report) ↔
      ¬ Overlong text := by
  rw [← report?_eq_none_iff_overlong h, ← ne_eq, Option.ne_none_iff_exists']
  constructor
  · rintro ⟨report, hreport, -⟩
    exact ⟨report, hreport⟩
  · rintro ⟨report, hreport⟩
    exact ⟨report, hreport, Error.toldBy_of_report? hreport⟩

/-- A pattern has no more tokens than its text has characters. -/
theorem length_tokens_le (h : compile text = .ok p) : p.tokens.length ≤ text.length := by
  have hglued := (compile_eq_ok_iff.1 h).1.glued
  have hparts : ∀ parts : List (Text × Text), parts.length ≤ (gluedParts parts).length := by
    intro parts
    induction parts with
    | nil => exact Nat.zero_le _
    | cons part parts ih =>
      rw [gluedParts_cons]
      simp only [List.length_cons, List.length_append, opening]
      omega
  have hlength := hparts (p.tokens.map partOf)
  rw [List.length_map] at hlength
  rw [hglued, glued, List.length_append]
  omega

end Pattern

/-- The first bad pattern of a mapping is one that cannot be compiled. -/
theorem Filter.FirstBad.compile_eq {m : Table Text Text} {source text : Text}
    {e : Pattern.Error} (h : FirstBad m source text e) : Pattern.compile text = .error e := by
  obtain ⟨-, -, -, -, hcompile⟩ := h
  exact hcompile

/-! ## Checking patterns -/

namespace CommandLine.Check

section

variable {asJson : Bool} {text : Text} {before : List Text} {p : Pattern}

/-- A token is written if its position can be shown, since its slot can. -/
theorem exists_write_tokenValue {token : Token}
    (hread : Placeholder.parse token.placeholder.raw = .ok token.placeholder) {position : Nat}
    (hposition : Numeral.isShown position = true) :
    ∃ line, Json.write Json.strict (tokenValue position token) = .ok line := by
  have hslot : ∃ line, Json.write Json.strict
      (token.placeholder.modifier.slot?.elim .null fun slot => .int slot) = .ok line := by
    cases hm : token.placeholder.modifier.slot? with
    | none => exact ⟨_, rfl⟩
    | some slot => exact ⟨_, if_pos (Placeholder.isShown_of_parse hread hm)⟩
  refine Json.exists_write_map ?_
  simp only [List.forall_mem_cons]
  exact ⟨⟨⟨_, rfl⟩, _, if_pos hposition⟩, ⟨⟨_, rfl⟩, _, rfl⟩, ⟨⟨_, rfl⟩, _, rfl⟩,
    ⟨⟨_, rfl⟩, _, rfl⟩, ⟨⟨_, rfl⟩, hslot⟩, ⟨⟨_, rfl⟩, _, rfl⟩, by simp⟩

/-- A pattern that can be compiled is described unless it has too many tokens to number. -/
theorem exists_approval (hp : Pattern.compile text = .ok p)
    (hshown : asJson = true → Numeral.isShown text.length = true) :
    ∃ lines, approval asJson text p = .ok lines := by
  cases asJson with
  | false => exact ⟨_, rfl⟩
  | true =>
    have htokens : ∃ line,
        Json.write Json.strict (.list (p.tokens.mapIdx tokenValue)) = .ok line := by
      refine Json.exists_write_list_iff.2 ?_
      intro v hv
      obtain ⟨position, hposition, rfl⟩ := List.mem_mapIdx.1 hv
      have hread := (Pattern.compile_eq_ok_iff.1 hp).2 _ (List.getElem_mem hposition)
      have hlength := Pattern.length_tokens_le hp
      exact exists_write_tokenValue hread (Numeral.isShown_of_le (by omega) (hshown rfl))
    have hdescription : ∃ line, Json.write Json.strict (description text p) = .ok line := by
      refine Json.exists_write_map ?_
      simp only [List.forall_mem_cons]
      exact ⟨⟨⟨_, rfl⟩, _, rfl⟩, ⟨⟨_, rfl⟩, _, rfl⟩, ⟨⟨_, rfl⟩, htokens⟩, by simp⟩
    obtain ⟨line, hline⟩ := hdescription
    exact ⟨[.line .output line], by rw [approval, if_pos rfl, hline]; rfl⟩

/-- What is written about a pattern: its tokens, or that it is invalid, and why. -/
inductive Says (asJson : Bool) (text : Text) : List Output → Prop
  | valid {p : Pattern} {lines : List Output} :
      Pattern.compile text = .ok p → approval asJson text p = .ok lines → Says asJson text lines
  | invalid {e : Pattern.Error} :
      Pattern.compile text = .error e → Says asJson text (rejection text e)

/-- A text that does not ask for too much has something said about it, and checking goes on with
the texts behind it.  If it is no pattern, the session is no success. -/
theorem exists_says (hlong : ¬ Pattern.Overlong text)
    (hshown : asJson = true → Numeral.isShown text.length = true) (rest : List Text) :
    ∃ lines, Says asJson text lines ∧
      (checkAll asJson (text :: rest)).outputs = lines ++ (checkAll asJson rest).outputs ∧
      ((∃ p, Pattern.compile text = .ok p) →
        (checkAll asJson (text :: rest)).ending = (checkAll asJson rest).ending) ∧
      ((∃ e, Pattern.compile text = .error e) →
        (checkAll asJson (text :: rest)).ending = (checkAll asJson rest).ending.failing) := by
  cases hc : Pattern.compile text with
  | ok p =>
    obtain ⟨lines, hlines⟩ := exists_approval hc hshown
    have hcheck : checkAll asJson (text :: rest) = (checkAll asJson rest).after lines := by
      simp only [checkAll, hc, hlines]
    exact ⟨lines, .valid hc hlines, by simp [hcheck], by simp [hcheck], nofun⟩
  | error e =>
    have hreported : (e.report? none .null).isNone = false := by
      rw [Option.isNone_eq_false_iff, ← Option.ne_none_iff_isSome, ne_eq,
        Pattern.report?_eq_none_iff_overlong hc]
      exact hlong
    have hcheck : checkAll asJson (text :: rest) =
        { (checkAll asJson rest).after (rejection text e) with
          ending := (checkAll asJson rest).ending.failing } := by
      simp [checkAll, hc, hreported]
    exact ⟨rejection text e, .invalid hc, by simp [hcheck], nofun, by simp [hcheck]⟩

/-- Checking breaks off at a text that asks for too much. -/
theorem checkAll_of_overlong (h : Pattern.Overlong text) (rest : List Text) :
    ∃ e, Pattern.compile text = .error e ∧
      checkAll asJson (text :: rest) = .broken (.pattern e) := by
  obtain ⟨digits, hc⟩ := Pattern.overlong_iff.1 h
  exact ⟨_, hc, by simp [checkAll, hc, Pattern.Error.report?]⟩

theorem failing_failing (ending : Ending) : ending.failing.failing = ending.failing := by
  cases ending with
  | exit code => cases code <;> rfl
  | breakdown b => rfl

theorem all_compile_or (texts : List Text) :
    (∀ text ∈ texts, ∃ p, Pattern.compile text = .ok p) ∨
      ∃ text ∈ texts, ∃ e, Pattern.compile text = .error e := by
  rw [or_iff_not_imp_right]
  intro hnone text htext
  cases hc : Pattern.compile text with
  | ok p => exact ⟨p, rfl⟩
  | error e => exact absurd ⟨text, htext, e, hc⟩ hnone

/-- Texts that do not ask for too much are all checked, one after another, before what stands
behind them. -/
theorem checkAll_append (hlong : ∀ text ∈ before, ¬ Pattern.Overlong text)
    (hshown : asJson = true → ∀ text ∈ before, Numeral.isShown text.length = true)
    (after : List Text) :
    ∃ lines, List.Forall₂ (Says asJson) before lines ∧
      (checkAll asJson (before ++ after)).outputs =
        lines.flatten ++ (checkAll asJson after).outputs ∧
      ((∀ text ∈ before, ∃ p, Pattern.compile text = .ok p) →
        (checkAll asJson (before ++ after)).ending = (checkAll asJson after).ending) ∧
      ((∃ text ∈ before, ∃ e, Pattern.compile text = .error e) →
        (checkAll asJson (before ++ after)).ending = (checkAll asJson after).ending.failing) := by
  induction before with
  | nil => exact ⟨[], .nil, rfl, fun _ => rfl, by simp⟩
  | cons text rest ih =>
    obtain ⟨hfirst, hrest⟩ := List.forall_mem_cons.1 hlong
    obtain ⟨more, hmore, houtputs, hvalid, hinvalid⟩ :=
      ih hrest fun hjson => (List.forall_mem_cons.1 (hshown hjson)).2
    obtain ⟨lines, hsays, hwritten, hgood, hbad⟩ :=
      exists_says hfirst (fun hjson => (List.forall_mem_cons.1 (hshown hjson)).1) (rest ++ after)
    refine ⟨lines :: more, .cons hsays hmore, ?_, ?_, ?_⟩
    · rw [List.cons_append, hwritten, houtputs, List.flatten_cons, List.append_assoc]
    · intro hall
      obtain ⟨htext, hothers⟩ := List.forall_mem_cons.1 hall
      rw [List.cons_append, hgood htext, hvalid hothers]
    · intro hsome
      rw [List.cons_append]
      cases hc : Pattern.compile text with
      | ok p =>
        rw [hgood ⟨p, hc⟩]
        refine hinvalid ?_
        simpa [hc] using hsome
      | error e =>
        rw [hbad ⟨e, hc⟩]
        -- whatever the others are, the session fails for the first
        rcases all_compile_or rest with hothers | hothers
        · rw [hvalid hothers]
        · rw [hinvalid hothers, failing_failing]

end

/-- A broken pattern is reported, with its text and with the source that it is for, and checking
goes on behind it, unless it asks for a slot with more digits than are read.  For such a pattern
a registration fails without a report, and checking breaks off; but no text asks for too much in
which no more digits than are read stand in a row. -/
theorem reported_unless_overlong {program : Text} {around : Surroundings} {arguments : List Text}
    (call : Call program around arguments)
    (hshown : call.asJson = true → ∀ text ∈ call.patterns, Numeral.isShown text.length = true) :
    (∀ text, ¬ Pattern.Overlong text ↔
      (∃ p, Pattern.compile text = .ok p) ∨
        ∃ e report, Pattern.compile text = .error e ∧
          e.report? (some text) .null = some report ∧ e.ToldBy text .null report) ∧
    (∀ text : Text, (∀ count, text.HasRun count → count ≤ Numeral.limit) →
      ¬ Pattern.Overlong text) ∧
    (∀ (f : Filter) (m : Table Text Text) (error : Filter.RuleError),
      f.settings.mapping = Config.tableValue m → f.register = .error error →
        ∃ source text e, Filter.FirstBad m source text e ∧
          error = .badPattern (.text source) text e ∧
          ((∃ report, error.report? = some report ∧ e.ToldBy text (.text source) report) ↔
            ¬ Pattern.Overlong text)) ∧
    ((∀ text ∈ call.patterns, ¬ Pattern.Overlong text) →
      ∃ lines, List.Forall₂ (Says call.asJson) call.patterns lines ∧
        (CommandLine.session program around arguments).outputs = lines.flatten ∧
        ((∀ text ∈ call.patterns, ∃ p, Pattern.compile text = .ok p) →
          (CommandLine.session program around arguments).ending = .exit 0) ∧
        ((∃ text ∈ call.patterns, ∃ e, Pattern.compile text = .error e) →
          (CommandLine.session program around arguments).ending = .exit 1)) ∧
    ∀ before text after, call.patterns = before ++ text :: after →
      (∀ other ∈ before, ¬ Pattern.Overlong other) → Pattern.Overlong text →
        ∃ lines e, List.Forall₂ (Says call.asJson) before lines ∧
          Pattern.compile text = .error e ∧
          (CommandLine.session program around arguments).outputs = lines.flatten ∧
          (CommandLine.session program around arguments).ending = .breakdown (.pattern e) := by
  rw [call.session_eq_checkAll]
  refine ⟨?_, fun text => Pattern.not_overlong, ?_, ?_, ?_⟩
  · intro text
    cases hc : Pattern.compile text with
    | ok p =>
      refine iff_of_true ?_ (.inl ⟨p, rfl⟩)
      rw [Pattern.overlong_iff, hc]
      nofun
    | error e =>
      rw [← Pattern.exists_toldBy_iff hc .null]
      simp
  · intro f m error hm herror
    obtain ⟨source, text, e, hbad, rfl⟩ := (Filter.register_eq_error_iff hm).1 herror
    have htold := Pattern.exists_toldBy_iff (hbad.compile_eq) (.text source)
    exact ⟨source, text, e, hbad, rfl, htold⟩
  · intro hlong
    obtain ⟨lines, hlines, houtputs, hvalid, hinvalid⟩ := checkAll_append hlong hshown []
    rw [List.append_nil] at houtputs hvalid hinvalid
    exact ⟨lines, hlines, houtputs.trans (List.append_nil _), hvalid, hinvalid⟩
  · intro before text after hpatterns hbefore htext
    rw [hpatterns] at hshown ⊢
    obtain ⟨lines, hlines, houtputs, hvalid, hinvalid⟩ :=
      checkAll_append hbefore (fun hjson => (List.forall_mem_append.1 (hshown hjson)).1)
        (text :: after)
    obtain ⟨e, hc, hbreaks⟩ := checkAll_of_overlong htext after
    rw [hbreaks] at houtputs hvalid hinvalid
    refine ⟨lines, e, hlines, hc, houtputs.trans (List.append_nil _), ?_⟩
    rcases all_compile_or before with hall | hsome
    · exact hvalid hall
    · exact hinvalid hsome

/-- Arguments without a dash in front are operands. -/
theorem ofArguments_operands {texts : List Text} (h : ∀ text ∈ texts, text.head? ≠ some '-') :
    Given.ofArguments options true texts = .ok ⟨[], texts⟩ := by
  induction texts with
  | nil => rfl
  | cons text rest ih =>
    obtain ⟨htext, hrest⟩ := List.forall_mem_cons.1 h
    have hdashes : text ≠ ['-', '-'] := by
      rintro rfl
      exact htext rfl
    have hoption : isOption text = false := by simp [isOption, htext]
    simp [Given.ofArguments, hdashes, hoption, ih hrest, Except.map, Given.withOperand]

/-- Patterns without a dash in front are checked where there is nothing around. -/
def plainCall (texts : List Text) (hne : texts ≠ []) (h : ∀ text ∈ texts, text.head? ≠ some '-') :
    Call "linedissect" {} ("check" :: texts) where
  level := none
  rest := texts
  log := warningLog
  sink := 1
  finds := rfl
  configured := configure_none
  request := ⟨texts, false⟩
  reads := by
    rw [show Surroundings.shell {} = .customary from rfl,
      show Shell.customary.check = Customary.check from rfl]
    simp only [Customary.check, ofArguments_operands h, hne]
    rfl

/-- A pattern with a slot of this many digits. -/
def slotPattern (digits : Nat) : Text :=
  Pattern.opening ++ '+' :: 'a' :: '/' :: List.replicate digits '1' ++ Pattern.closing

theorem overlong_slotPattern {digits : Nat} (h : Numeral.limit < digits) :
    Pattern.Overlong (slotPattern digits) := by
  have hslot : Placeholder.IsSlot (List.replicate digits '1') := by
    refine ⟨by simp; omega, ?_⟩
    intro c hc
    rw [List.eq_of_mem_replicate hc]
    rfl
  have hlong : Placeholder.TooLong ('+' :: (['a'] ++ '/' :: List.replicate digits '1'))
      (List.replicate digits '1').length :=
    .slot (by simp [Placeholder.Unmarked, Placeholder.isMark]) hslot
      (by rwa [List.length_replicate])
  refine ⟨[], [], (_, []), [], _, ⟨?_, ?_, ?_, ?_⟩, ?_, hlong⟩
  · simp [slotPattern, Pattern.glued, Pattern.gluedParts, Pattern.opening, Pattern.closing]
  · simp [Pattern.opening]
  · simp [Pattern.closing, List.singleton_infix_iff]
  · simp [Pattern.opening]
  · simp

/-- A pattern without an end is reported, and the one behind it is checked. -/
theorem reported_unless_overlong_unterminated :
    ∃ lines, List.Forall₂ (Says false) ["%\x7ba", "%\x7bb\x7d"] lines ∧
      (CommandLine.session "linedissect" {} ["check", "%\x7ba", "%\x7bb\x7d"]).outputs =
        lines.flatten ∧
      (CommandLine.session "linedissect" {} ["check", "%\x7ba", "%\x7bb\x7d"]).ending =
        .exit 1 := by
  have hbad : Pattern.compile "%\x7ba" = .error (.unterminated ⟨0, "%\x7ba"⟩) := by
    decide +kernel
  have hgood : Pattern.compile "%\x7bb\x7d" = .ok ⟨[], [⟨⟨"b", .normal, "b"⟩, []⟩]⟩ := by
    decide +kernel
  have hshort : ∀ text ∈ (["%\x7ba", "%\x7bb\x7d"] : List Text), ¬ Pattern.Overlong text := by
    simp only [List.forall_mem_cons, Pattern.overlong_iff, hbad, hgood]
    exact ⟨nofun, nofun, by simp⟩
  let call := plainCall ["%\x7ba", "%\x7bb\x7d"] nofun (by simp)
  obtain ⟨-, -, -, hcheck, -⟩ := reported_unless_overlong call nofun
  obtain ⟨lines, hlines, houtputs, -, hending⟩ := hcheck hshort
  exact ⟨lines, hlines, houtputs, hending ⟨_, List.mem_cons_self, _, hbad⟩⟩

/-- Where a slot is too long, nothing is said of it and nothing behind it is checked. -/
theorem session_slotPattern {digits : Nat} (h : Numeral.limit < digits) :
    ∃ b, CommandLine.session "linedissect" {} ["check", slotPattern digits, "%\x7bb\x7d"] =
      .broken b := by
  let call := plainCall [slotPattern digits, "%\x7bb\x7d"] nofun
    (by simp [slotPattern, Pattern.opening])
  obtain ⟨e, -, hbreaks⟩ := checkAll_of_overlong (overlong_slotPattern h) ["%\x7bb\x7d"]
  exact ⟨.pattern e, call.session_eq_checkAll.trans hbreaks⟩

/-- A slot with one digit too many has no report when it is compiled or registered, and patterns
are not checked to the end. -/
theorem not_reported_longSlot :
    (∃ e, Pattern.compile (slotPattern 4301) = .error e ∧
      e.report? (some (slotPattern 4301)) .null = none) ∧
    (∃ error, (Filter.ofConfig { mapping := .ofList [("message", slotPattern 4301)] }).register =
        .error error ∧ error.report? = none) ∧
    ∃ b, CommandLine.session "linedissect" {} ["check", slotPattern 4301, "%\x7bb\x7d"] =
      .broken b := by
  have hlimit : Numeral.limit < 4301 := by decide
  obtain ⟨digits, hc⟩ := Pattern.overlong_iff.1 (overlong_slotPattern hlimit)
  have hregister := (Filter.register_eq_error_iff
    (f := .ofConfig { mapping := .ofList [("message", slotPattern 4301)] }) rfl).2
      ⟨"message", slotPattern 4301, _, ⟨[], [], rfl, by simp, hc⟩, rfl⟩
  exact ⟨⟨_, hc, rfl⟩, ⟨_, hregister, rfl⟩, session_slotPattern hlimit⟩

end CommandLine.Check

end Dissection
