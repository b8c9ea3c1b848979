-- SUMMARY: The two commands agree on every source, and on the source that one of them rebuilds.
import Mathlib
import LogoSyntax.CommandLine.Host
import LogoSyntax.Proofs.Cursor.Requests
import LogoSyntax.Proofs.Grammar.Independence
import LogoSyntax.Proofs.Reader.Emission
import LogoSyntax.Proofs.Text.Place

/-!
# Agreement of the commands

One command prints the tokens of a source and the other one its program. The first
succeeds on a source without a component that no shape fits, and the second on a
source that is parsed, which has no such component either.

The rejoined source that the first command prints ends in a line break of its own.
Blank text at the end is not part of a source (`parse_append_of_blank`), and the
tokens of a rejoined source are those of the source it comes from, so the second
command does not tell one from the other (`Host.commands_agree`).
-/

namespace LogoSyntax

open Text

/-! ## Sources without a failing component -/

/-- Every component of the source stands for a token. -/
def Classifiable (source : String) : Prop :=
  ∀ line ∈ sourceLines source, ∀ w ∈ line.components, (classify w.chars).isSome = true

instance (source : String) : Decidable (Classifiable source) :=
  inferInstanceAs (Decidable (∀ line ∈ sourceLines source, ∀ w ∈ line.components,
    (classify w.chars).isSome = true))

/-- Reading a source stops at its end, or at a component that stands for no token. -/
theorem final_kind_cases (source : String) :
    ((Cursor.ofSource source).final.token.kind = .noMore ∧ Classifiable source) ∨
      ((Cursor.ofSource source).final.token.kind = .notFound ∧ ¬ Classifiable source) := by
  obtain ⟨last, hts, -, hlast⟩ := tokenize_spec source
  rw [tokenize, Cursor.tokens_eq_append_final] at hts
  obtain rfl := List.singleton_inj.1 (List.append_cancel_left hts)
  rcases hlast with hend | ⟨hk, line, hline, w, hw, hnone⟩
  · exact .inl hend
  · refine .inr ⟨hk, fun hall => ?_⟩
    simpa [hnone] using hall line hline w hw

theorem final_kind_eq_noMore_iff (source : String) :
    (Cursor.ofSource source).final.token.kind = .noMore ↔ Classifiable source := by
  rcases final_kind_cases source with ⟨hk, hall⟩ | ⟨hk, hnot⟩ <;> simp [*]

/-- A component that no shape fits defeats every parse. -/
theorem classifiable_of_parse {source : String} {p : Program} (h : parse source = .ok p) :
    Classifiable source := by
  obtain ⟨us, last, hsig, hlast, -⟩ := derives_of_parse h
  have hend : (Cursor.ofSource source).final.token.kind.isEnd = true := by
    rcases final_kind_cases source with ⟨hk, -⟩ | ⟨hk, -⟩ <;> rw [hk] <;> rfl
  rw [(significant_tokenize (Cursor.tokens_eq_append_final _) hend).1] at hsig
  obtain rfl := List.singleton_inj.1 (List.append_inj' hsig rfl).2
  exact (final_kind_eq_noMore_iff source).1 hlast

/-! ## Blank text behind a source -/

/-- Blank text at the end of a source makes no difference. -/
theorem parse_append_of_blank {trail : String} (h : isBlankText trail.toList = true)
    (source : String) : parse (source ++ trail) = parse source := by
  have hlines : sourceLines (source ++ trail) = sourceLines source := by
    rw [sourceLines, sourceLines, String.toList_append, trim_append_of_blank h]
  rw [parse, parse, Cursor.ofSource, Cursor.ofSource, hlines]

/-- A rejoined source on a line of its own is parsed as the source it comes from. -/
theorem sameResult_rejoined (source : String) :
    SameResult SyntaxError.SameButPlace (parse source)
      (parse (Token.rejoin (tokenize source) ++ "\n")) := by
  rw [parse_append_of_blank (by decide)]
  refine sameResult_of_content ?_
  rw [content_significant, content_significant, content_tokenize_rejoin]

namespace CommandLine

/-! ## What the commands answer -/

namespace Command

theorem code_run_tokens (view : TokenView) (format : OutputFormat) (log : Log.Writer)
    (source : String) :
    ((tokens view).run format log source).code = .success ↔ Classifiable source := by
  rw [← final_kind_eq_noMore_iff, run]
  split <;> simp_all

theorem run_parse_of_ok {source : String} {p : Program} (h : LogoSyntax.parse source = .ok p)
    (chosen : Option OutputFormat) (format : OutputFormat) (log : Log.Writer) :
    ((parse chosen).run format log source).code = .success ∧
      ((parse chosen).run format log source).output =
        printProgram p (chosen.getD format) := by
  have hresult : ((Reader.ofCursor (Cursor.ofSource source)).withLog log).parse.1 = .ok p :=
    (Reader.result_withLog source log).trans h
  simp [run, hresult]

theorem run_parse_of_error {source : String} {halt : Halt}
    (h : LogoSyntax.parse source = .error halt) (chosen : Option OutputFormat)
    (format : OutputFormat) (log : Log.Writer) :
    ((parse chosen).run format log source).code = .failure ∧
      ((parse chosen).run format log source).output = "" := by
  have hresult : ((Reader.ofCursor (Cursor.ofSource source)).withLog log).parse.1 =
      .error halt :=
    (Reader.result_withLog source log).trans h
  simp [run, hresult, Outcome.ofProblem]

/-- Sources with the same result are answered alike. -/
theorem run_parse_congr {agree : SyntaxError → SyntaxError → Prop} {source source' : String}
    (h : SameResult agree (LogoSyntax.parse source) (LogoSyntax.parse source'))
    (chosen : Option OutputFormat) (format : OutputFormat) (log log' : Log.Writer) :
    ((parse chosen).run format log source).code =
        ((parse chosen).run format log' source').code ∧
      ((parse chosen).run format log source).output =
        ((parse chosen).run format log' source').output := by
  generalize hr : LogoSyntax.parse source = result at h
  generalize hr' : LogoSyntax.parse source' = result' at h
  cases h with
  | parsed p =>
    obtain ⟨hcode, houtput⟩ := run_parse_of_ok hr chosen format log
    obtain ⟨hcode', houtput'⟩ := run_parse_of_ok hr' chosen format log'
    exact ⟨hcode.trans hcode'.symm, houtput.trans houtput'.symm⟩
  | rejected _ =>
    obtain ⟨hcode, houtput⟩ := run_parse_of_error hr chosen format log
    obtain ⟨hcode', houtput'⟩ := run_parse_of_error hr' chosen format log'
    exact ⟨hcode.trans hcode'.symm, houtput.trans houtput'.symm⟩

end Command

/-! ## Command lines -/

namespace Host

/-- The command line is an invocation, and its configuration can be loaded and names
    a level that is known. -/
structure Accepts (h : Host) (words : List String) (i : Invocation) (config : Config) : Prop where
  reads : Invocation.ofWords words = .ok i
  loads : Config.load h.files (i.configPath h.home) = .ok config
  levels : ∃ filter, config.levelFilter = .ok filter

/-- The host on which the output of a run is the standard input. -/
def piped (h : Host) (o : Outcome) : Host :=
  { h with input := o.output.toUTF8 }

/-- An invocation without a file reads the standard input. -/
theorem source_of_input {h : Host} {i : Invocation} {text : String} (hinput : h.input = text.toUTF8)
    (hi : i.file = none) : h.source i = .ok text := by
  rw [Host.source, hi, hinput]
  exact readText_toUTF8 text

/-- The command of an accepted command line answers for the whole run. -/
theorem Accepts.run_eq {h : Host} {words : List String} {i : Invocation} {config : Config}
    {source : String} (ha : h.Accepts words i config) (hs : h.source i = .ok source) :
    ∃ log, (h.run words).code = (i.command.run config.format log source).code ∧
      (h.run words).output = (i.command.run config.format log source).output := by
  obtain ⟨filter, hfilter⟩ := ha.levels
  refine ⟨(Log.Writer.ofFilter (filter.raise i.verbosity)).write
    (Invocation.configRecord (i.configPath h.home)), ?_⟩
  simp [Host.run, Invocation.run, Invocation.runConfigured, ha.reads, ha.loads, hfilter, hs]

variable {h : Host} {words words' : List String} {i j : Invocation} {config config' : Config}
  {source : String} {view : TokenView} {chosen : Option OutputFormat}

theorem Accepts.tokens_code (ha : h.Accepts words i config) (hi : i.command = .tokens view)
    (hs : h.source i = .ok source) :
    (h.run words).code = .success ↔ Classifiable source := by
  obtain ⟨log, hcode, -⟩ := ha.run_eq hs
  rw [hcode, hi, Command.code_run_tokens]

theorem Accepts.parse_code (ha : h.Accepts words i config) (hi : i.command = .parse chosen)
    (hs : h.source i = .ok source) :
    ((h.run words).code = .success ∧ ∃ p, LogoSyntax.parse source = .ok p) ∨
      ((h.run words).code = .failure ∧ (h.run words).output = "" ∧
        ∃ halt, LogoSyntax.parse source = .error halt) := by
  obtain ⟨log, hcode, houtput⟩ := ha.run_eq hs
  rw [hcode, houtput, hi]
  cases hp : LogoSyntax.parse source with
  | ok p => exact .inl ⟨(Command.run_parse_of_ok hp chosen _ log).1, p, rfl⟩
  | error halt =>
    obtain ⟨hcode, houtput⟩ := Command.run_parse_of_error hp chosen config.format log
    exact .inr ⟨hcode, houtput, halt, rfl⟩

/-- The rejoined source is handed on as text. -/
theorem Accepts.source_piped (ha : h.Accepts words i config) (hi : i.command = .tokens .rejoined)
    (hs : h.source i = .ok source) (hj : j.file = none) :
    (h.piped (h.run words)).source j = .ok (Token.rejoin (tokenize source) ++ "\n") := by
  obtain ⟨log, -, houtput⟩ := ha.run_eq hs
  have hprinted : (h.run words).output = Token.rejoin (tokenize source) ++ "\n" := by
    rw [houtput, hi]
    rfl
  exact source_of_input (congrArg String.toUTF8 hprinted) hj

/-- On a source that can be read, under configurations that can be loaded and name a
    known level: the tokens are printed with success exactly if every component stands for
    one, in whatever view, and the program exactly if the source is parsed. Without
    success, no program is printed at all. Where a program is printed with success, so are
    the tokens. And the rejoined source is answered with the same program and the same
    exit code as the source itself. -/
theorem commands_agree (htokens : h.Accepts words i config) (hi : i.command = .tokens view)
    (hsi : h.source i = .ok source) (hparse : h.Accepts words' j config')
    (hj : j.command = .parse chosen) (hsj : h.source j = .ok source) :
    ((h.run words).code = .success ↔ Classifiable source) ∧
    ((h.run words').code = .success ↔ ∃ p, LogoSyntax.parse source = .ok p) ∧
    ((h.run words').code ≠ .success →
      (h.run words').code = .failure ∧ (h.run words').output = "") ∧
    ((h.run words').code = .success → (h.run words).code = .success) ∧
    (view = .rejoined → ∀ (words'' : List String) (k : Invocation),
      (h.piped (h.run words)).Accepts words'' k config' → k.command = .parse chosen →
      k.file = none →
        ((h.piped (h.run words)).run words'').code = (h.run words').code ∧
          ((h.piped (h.run words)).run words'').output = (h.run words').output) := by
  have hcode := htokens.tokens_code hi hsi
  have hanswer := hparse.parse_code hj hsj
  refine ⟨hcode, ?_, ?_, ?_, ?_⟩
  · rcases hanswer with ⟨hsuccess, hp⟩ | ⟨hfailure, -, halt, herror⟩
    · exact ⟨fun _ => hp, fun _ => hsuccess⟩
    · simp [hfailure, herror]
  · intro hne
    rcases hanswer with ⟨hsuccess, -⟩ | ⟨hfailure, hempty, -⟩
    · exact absurd hsuccess hne
    · exact ⟨hfailure, hempty⟩
  · intro hsuccess
    rcases hanswer with ⟨-, p, hp⟩ | ⟨hfailure, -⟩
    · exact hcode.2 (classifiable_of_parse hp)
    · simp [hfailure] at hsuccess
  · rintro rfl words'' k hpiped hk hfile
    obtain ⟨log, hcode, houtput⟩ := hparse.run_eq hsj
    obtain ⟨log', hcode', houtput'⟩ := hpiped.run_eq (htokens.source_piped hi hsi hfile)
    rw [hcode, houtput, hcode', houtput', hk, hj]
    obtain ⟨hcodes, houtputs⟩ :=
      Command.run_parse_congr (sameResult_rejoined source) chosen config'.format log log'
    exact ⟨hcodes.symm, houtputs.symm⟩

/-- A program over three lines, one of them empty, is printed alike from the source
    and from what is made of it without its spaces at the ends of lines. -/
theorem commands_agree_on_spaced_source :
    ∃ h : Host, h.input = "  print 1 \n\n STOP ".toUTF8 ∧
      (h.run ["tokens", "--rejoin", "--config", "c"]).code = .success ∧
      (h.run ["parse", "--config", "c"]).code = .success ∧
      ((h.piped (h.run ["tokens", "--rejoin", "--config", "c"])).run
          ["parse", "--config", "c"]).output =
        (h.run ["parse", "--config", "c"]).output := by
  have hconfig : Config.load .empty "c" = .ok .standard := by cbv
  have hlevel : Config.standard.levelFilter = .ok (.upTo .warn) := by cbv
  have htokens : Invocation.ofWords ["tokens", "--rejoin", "--config", "c"] =
      .ok ⟨.tokens .rejoined, none, some "c", 0⟩ := by cbv
  have hparse : Invocation.ofWords ["parse", "--config", "c"] =
      .ok ⟨.parse none, none, some "c", 0⟩ := by cbv
  have hprogram : ∃ p, LogoSyntax.parse "  print 1 \n\n STOP " = .ok p :=
    ⟨⟨[.call ⟨"print", [.number "1"], false⟩, .stop]⟩, by cbv⟩
  let h : Host := { files := .empty, input := "  print 1 \n\n STOP ".toUTF8, home := "" }
  have hsource (i : Invocation) (hi : i.file = none) :
      h.source i = .ok "  print 1 \n\n STOP " :=
    source_of_input rfl hi
  have hi : h.Accepts _ _ _ := ⟨htokens, hconfig, _, hlevel⟩
  have hj : h.Accepts _ _ _ := ⟨hparse, hconfig, _, hlevel⟩
  obtain ⟨-, hsuccess, -, hboth, hpiped⟩ :=
    commands_agree hi rfl (hsource _ rfl) hj rfl (hsource _ rfl)
  have hparsed := hsuccess.2 hprogram
  exact ⟨h, rfl, hboth hparsed, hparsed, (hpiped rfl _ _ ⟨hparse, hconfig, _, hlevel⟩ rfl rfl).2⟩

end Host

end CommandLine

end LogoSyntax
