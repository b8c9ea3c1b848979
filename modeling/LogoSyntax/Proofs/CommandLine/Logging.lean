-- SUMMARY: The level of the log decides which records are shown, and nothing else.
import Mathlib
import LogoSyntax.CommandLine.Host
import LogoSyntax.Proofs.Reader.Emission

/-!
# Logging

The level of a run comes from its configuration and from the verbosity of its command
line. `Host.Emits` says what it is and which records the run emits, be they shown or
not. Both are the run's alone (`Host.Emits.unique`), and neither depends on what the log
does with the records.

A run shows those of the records that it emits that its level lets through
(`Host.Emits.shows`), because each of them is written or not when it is emitted. What a
run emits is up to the command and the source alone, and what the log keeps of it has no
influence on the rest of the run (`Command.Emits.run_eq`). Runs that differ in their
levels therefore emit the same records and come to the same in everything but the log,
and the one with the lower level shows a part of what the other one shows
(`Host.level_decides_records_alone`).
-/

namespace LogoSyntax

/-- What a higher level lets through, and a lower one of that, is what the lower one lets
    through alone. -/
theorem Log.filter_filter_rank {level level' : Nat} (h : level ≤ level')
    (records : List Log.Record) :
    (records.filter fun r => decide (r.level.rank ≤ level')).filter
        (fun r => decide (r.level.rank ≤ level)) =
      records.filter fun r => decide (r.level.rank ≤ level) := by
  rw [List.filter_filter]
  apply List.filter_congr
  intro r _
  simp only [Bool.and_eq_left_iff_imp, decide_eq_true_eq]
  intro hr
  exact Nat.le_trans hr h

/-- The configuration of a file with a text is what the text holds. -/
theorem Config.load_of_file {t : FileTree} {path text : String} {config : Config}
    (hfile : t.find path = .ok (.file text.toUTF8)) (htext : Config.ofText text = .ok config) :
    Config.load t path = .ok config := by
  rw [load_of_read (FileTree.read_of_find hfile), htext]
  rfl

theorem Config.eq_ok_of_toOption {x : Except Yaml.LoadError Config} {config : Config}
    (h : x.toOption = some config) : x = .ok config := by
  cases x with
  | error e => cases h
  | ok c => rw [Option.some.inj h]

namespace CommandLine

/-! ## What runs emit -/

/-- The records that a command emits on a source, the earliest first: those of the tokens
    as they are read, or those of the parse. -/
def Command.Emits (source : String) (emitted : List Log.Record) : Command → Prop
  | tokens _ => emitted = (Cursor.ofSource source).emitted
  | parse _ => (Reader.ofSource source).ParseEmits emitted

theorem Command.exists_emits (command : Command) (source : String) :
    ∃ emitted, command.Emits source emitted := by
  cases command with
  | tokens view => exact ⟨_, rfl⟩
  | parse chosen => exact Reader.exists_parseEmits (Reader.Reachable.ofSource source).stream

theorem Command.Emits.unique {command : Command} {source : String}
    {emitted emitted' : List Log.Record} (h : command.Emits source emitted)
    (h' : command.Emits source emitted') : emitted = emitted' := by
  cases command with
  | tokens view => exact Eq.trans h (Eq.symm h')
  | parse chosen => exact Reader.ParseEmits.unique h h'

/-- A command writes what it emits to the log, and comes to the same on every log
    otherwise. -/
theorem Command.Emits.run_eq {command : Command} {source : String} {emitted : List Log.Record}
    (h : command.Emits source emitted) (format : OutputFormat) (log log' : Log.Writer) :
    command.run format log source =
      { command.run format log' source with log := log.writeAll emitted } := by
  cases command with
  | tokens view =>
    obtain rfl : emitted = (Cursor.ofSource source).emitted := h
    simp only [run, Cursor.logTo_eq]
  | parse chosen =>
    have hparse (w : Log.Writer) :
        ((Reader.ofCursor (Cursor.ofSource source)).withLog w).parse =
          ((Reader.ofSource source).parse.1,
            (Reader.ofSource source).parse.2.withLog (w.writeAll emitted)) :=
      Reader.ParseEmits.parse_withLog h w
    simp only [run, hparse]
    cases (Reader.ofSource source).parse.1 with
    | ok p => rfl
    | error halt => rfl

/-- The records that a configured invocation emits, the earliest first. -/
def Invocation.Emits (i : Invocation) (source : Except ReadError String)
    (emitted : List Log.Record) : Prop :=
  match source with
  | .ok source => i.command.Emits source emitted
  | .error _ => emitted = []

theorem Invocation.exists_emits (i : Invocation) (source : Except ReadError String) :
    ∃ emitted, i.Emits source emitted := by
  cases source with
  | ok source => exact i.command.exists_emits source
  | error e => exact ⟨[], rfl⟩

theorem Invocation.Emits.unique {i : Invocation} {source : Except ReadError String}
    {emitted emitted' : List Log.Record} (h : i.Emits source emitted)
    (h' : i.Emits source emitted') : emitted = emitted' := by
  cases source with
  | ok source => exact Command.Emits.unique h h'
  | error e => exact Eq.trans h (Eq.symm h')

theorem Invocation.Emits.run_eq {i : Invocation} {source : Except ReadError String}
    {emitted : List Log.Record} (h : i.Emits source emitted) (format : OutputFormat)
    (log log' : Log.Writer) :
    i.runConfigured format log source =
      { i.runConfigured format log' source with log := log.writeAll emitted } := by
  cases source with
  | ok source => exact Command.Emits.run_eq h format log log'
  | error e =>
    obtain rfl : emitted = [] := h
    rfl

/-- The log decides about nothing but itself. -/
theorem Invocation.runConfigured_eq (i : Invocation) (format : OutputFormat)
    (log log' : Log.Writer) (source : Except ReadError String) :
    i.runConfigured format log source =
      { i.runConfigured format log' source with log := (i.runConfigured format log source).log } := by
  obtain ⟨emitted, hemits⟩ := i.exists_emits source
  rw [hemits.run_eq format log log']

/-! ## Levels -/

/-- The command line is an invocation, and its configuration can be loaded and names a
    level that is known. The level of the run is that one, raised by a step for each flag
    until it lets everything through. -/
def Host.SetsLevel (h : Host) (words : List String) (i : Invocation) (config : Config)
    (level : Nat) : Prop :=
  Invocation.ofWords words = .ok i ∧ Config.load h.files (i.configPath h.home) = .ok config ∧
    ∃ filter, config.levelFilter = .ok filter ∧ level = min (filter.rank + i.verbosity) 5

/-- A run has a level, which is the number of levels that it shows, and emits some
    records, the earliest first. A run that fails before its level is set emits none. -/
inductive Host.Emits (h : Host) (words : List String) : Nat → List Log.Record → Prop where
  | unset (hnone : ∀ i config level, ¬ h.SetsLevel words i config level) : Emits h words 0 []
  | set {i : Invocation} {config : Config} {level : Nat} {emitted : List Log.Record}
      (hlevel : h.SetsLevel words i config level) (hemits : i.Emits (h.source i) emitted) :
      Emits h words level (Invocation.configRecord (i.configPath h.home) :: emitted)

/-- An outcome shows those of some records whose level is among the first ones, each on a
    line, in front of the line that says why the run failed. -/
structure Outcome.Shows (o : Outcome) (level : Nat) (emitted : List Log.Record) : Prop where
  records : o.log.records = emitted.filter fun r => decide (r.level.rank ≤ level)
  messages : o.messages =
    (emitted.filter fun r => decide (r.level.rank ≤ level)).map (·.render) ++ o.problem.toList

theorem Outcome.shows_of_log {o : Outcome} {filter : Log.Filter} {emitted : List Log.Record}
    (h : o.log = (Log.Writer.ofFilter filter).writeAll emitted) :
    o.Shows filter.rank emitted := by
  have hrecords : o.log.records = emitted.filter fun r => decide (r.level.rank ≤ filter.rank) := by
    rw [h, Log.Writer.records_writeAll, Log.Writer.records_ofFilter]
    rfl
  exact ⟨hrecords, by rw [messages, hrecords]⟩

namespace Host

variable {h : Host} {words : List String}

/-- A run with a level is that of its invocation, on a log that holds the place of the
    configuration. -/
theorem SetsLevel.run_eq {i : Invocation} {config : Config} {level : Nat}
    (hlevel : h.SetsLevel words i config level) :
    ∃ filter : Log.Filter, filter.rank = level ∧ h.run words =
      i.runConfigured config.format
        ((Log.Writer.ofFilter filter).write (Invocation.configRecord (i.configPath h.home)))
        (h.source i) := by
  obtain ⟨hi, hconfig, filter, hfilter, rfl⟩ := hlevel
  refine ⟨filter.raise i.verbosity, filter.rank_raise _, ?_⟩
  simp only [run, hi, Invocation.run, hconfig, hfilter]

/-- A run without a level is over before anything is emitted. -/
theorem log_run_of_unset (hnone : ∀ i config level, ¬ h.SetsLevel words i config level) :
    (h.run words).log = .ofFilter .off := by
  unfold run
  cases hi : Invocation.ofWords words with
  | error stop => cases stop <;> rfl
  | ok i =>
    simp only [Invocation.run]
    cases hconfig : Config.load h.files (i.configPath h.home) with
    | error e => rfl
    | ok config =>
      cases hfilter : config.levelFilter with
      | error e => simp only [hfilter, Outcome.ofProblem]
      | ok filter => exact absurd ⟨hi, hconfig, filter, hfilter, rfl⟩ (hnone i config _)

/-- A run shows those of the records that it emits that its level lets through. -/
theorem Emits.shows {level : Nat} {emitted : List Log.Record} (he : h.Emits words level emitted) :
    (h.run words).Shows level emitted := by
  cases he with
  | unset hnone =>
    have hlog : (h.run words).log = (Log.Writer.ofFilter .off).writeAll [] :=
      log_run_of_unset hnone
    exact Outcome.shows_of_log hlog
  | set hlevel hemits =>
    obtain ⟨filter, rfl, hrun⟩ := hlevel.run_eq
    apply Outcome.shows_of_log
    rw [hrun, hemits.run_eq _ _ (.ofFilter .off), Log.Writer.writeAll_cons]

theorem SetsLevel.unique {i j : Invocation} {config config' : Config} {level level' : Nat}
    (hlevel : h.SetsLevel words i config level) (hlevel' : h.SetsLevel words j config' level') :
    i = j ∧ level = level' := by
  obtain ⟨hi, hconfig, filter, hfilter, rfl⟩ := hlevel
  obtain ⟨hj, hconfig', filter', hfilter', rfl⟩ := hlevel'
  obtain rfl := Except.ok.inj (hi.symm.trans hj)
  obtain rfl := Except.ok.inj (hconfig.symm.trans hconfig')
  obtain rfl := Except.ok.inj (hfilter.symm.trans hfilter')
  exact ⟨rfl, rfl⟩

/-- The level of a run is the one that its invocation and its configuration set. -/
theorem Emits.level_eq {i : Invocation} {config : Config} {level level' : Nat}
    {emitted : List Log.Record} (he : h.Emits words level emitted)
    (hlevel : h.SetsLevel words i config level') : level = level' := by
  cases he with
  | unset hnone => exact absurd hlevel (hnone i config level')
  | set hset hemits => exact (hset.unique hlevel).2

/-- A run has one level and emits one list of records. -/
theorem Emits.unique {level level' : Nat} {emitted emitted' : List Log.Record}
    (he : h.Emits words level emitted) (he' : h.Emits words level' emitted') :
    level = level' ∧ emitted = emitted' := by
  cases he with
  | unset hnone =>
    cases he' with
    | unset => exact ⟨rfl, rfl⟩
    | set hset => exact absurd hset (hnone _ _ _)
  | set hset hemits =>
    cases he' with
    | unset hnone => exact absurd hset (hnone _ _ _)
    | set hset' hemits' =>
      obtain ⟨rfl, rfl⟩ := hset.unique hset'
      rw [hemits.unique hemits']
      exact ⟨rfl, rfl⟩

end Host

/-! ## Runs that differ in their levels -/

/-- The command lines ask for the same but for the verbosity, or for nothing, and
    that for the same reason. -/
inductive SameButVerbosity : Except Stop Invocation → Except Stop Invocation → Prop where
  | stopped (stop : Stop) : SameButVerbosity (.error stop) (.error stop)
  | asked (i : Invocation) (verbosity : Nat) :
      SameButVerbosity (.ok i) (.ok { i with verbosity })

/-- The configurations are the same but for the level that they name, which is known
    in both, or they are the same. -/
inductive SameButLevelName : Except ConfigError Config → Except ConfigError Config → Prop where
  | same (config : Except ConfigError Config) : SameButLevelName config config
  | named {config : Config} {name : String} {filter filter' : Log.Filter}
      (h : config.levelFilter = .ok filter)
      (h' : { config with logLevel := name }.levelFilter = .ok filter') :
      SameButLevelName (.ok config) (.ok { config with logLevel := name })

/-- Either neither configuration gives a level, and they are the same, or both give one, and
    they print programs in the same format. -/
theorem SameButLevelName.levels {config config' : Except ConfigError Config}
    (h : SameButLevelName config config') :
    (config' = config ∧ ∀ c filter, config = .ok c → c.levelFilter ≠ .ok filter) ∨
      ∃ c c' filter filter', config = .ok c ∧ config' = .ok c' ∧ c.levelFilter = .ok filter ∧
        c'.levelFilter = .ok filter' ∧ c'.format = c.format := by
  cases h with
  | named h h' => exact .inr ⟨_, _, _, _, rfl, rfl, h, h', rfl⟩
  | same config =>
    by_cases hset : ∃ c filter, config = .ok c ∧ c.levelFilter = .ok filter
    · obtain ⟨c, filter, rfl, hfilter⟩ := hset
      exact .inr ⟨c, c, filter, filter, rfl, rfl, hfilter, hfilter, rfl⟩
    · refine .inl ⟨rfl, ?_⟩
      intro c filter hc hfilter
      exact hset ⟨c, filter, hc, hfilter⟩

/-- Two runs differ at most in their verbosity and in the level of the configuration. -/
structure Host.SameButLevel (h h' : Host) (words words' : List String) : Prop where
  asks : SameButVerbosity (Invocation.ofWords words) (Invocation.ofWords words')
  home : h'.home = h.home
  guidance : h'.guidance = h.guidance
  config : ∀ i, Invocation.ofWords words = .ok i →
    SameButLevelName (Config.load h.files (i.configPath h.home))
      (Config.load h'.files (i.configPath h.home))
  source : ∀ i, Invocation.ofWords words = .ok i → h'.source i = h.source i

/-- Where the configuration gives no level, it alone says how a run fails. -/
theorem Invocation.run_of_unset {config : Except ConfigError Config}
    (h : ∀ c filter, config = .ok c → c.levelFilter ≠ .ok filter) (i j : Invocation)
    (path : String) (source source' : Except ReadError String) :
    j.run path config source' = i.run path config source := by
  cases config with
  | error e => rfl
  | ok c =>
    cases hlevel : c.levelFilter with
    | error e => simp only [run, hlevel]
    | ok filter => exact absurd hlevel (h c filter rfl)

namespace Host

variable {h h' : Host} {words words' : List String}

theorem not_setsLevel_of_stopped {stop : Stop} (hw : Invocation.ofWords words = .error stop)
    (i : Invocation) (config : Config) (level : Nat) : ¬ h.SetsLevel words i config level := by
  rintro ⟨hi, -⟩
  rw [hw] at hi
  cases hi

theorem not_setsLevel_of_unset {i : Invocation} (hi : Invocation.ofWords words = .ok i)
    (hnone : ∀ c filter, Config.load h.files (i.configPath h.home) = .ok c →
      c.levelFilter ≠ .ok filter)
    (j : Invocation) (config : Config) (level : Nat) : ¬ h.SetsLevel words j config level := by
  rintro ⟨hj, hconfig, filter, hfilter, -⟩
  obtain rfl := Except.ok.inj (hi.symm.trans hj)
  exact hnone config filter hconfig hfilter

/-- Runs of invocations that differ in their verbosity emit the same, and come to the same
    in everything but the log, if they are configured to the same format and have the same
    source. -/
theorem SetsLevel.exists_emits {i : Invocation} {verbosity level level' : Nat}
    {config config' : Config} (hlevel : h.SetsLevel words i config level)
    (hlevel' : h'.SetsLevel words' { i with verbosity } config' level')
    (hhome : h'.home = h.home) (hformat : config'.format = config.format)
    (hsource : h'.source i = h.source i) :
    ∃ emitted, h.Emits words level emitted ∧ h'.Emits words' level' emitted ∧
      h'.run words' = { h.run words with log := (h'.run words').log } := by
  obtain ⟨emitted, hemits⟩ := i.exists_emits (h.source i)
  have hemits' : i.Emits (h'.source i) emitted := by rwa [hsource]
  have hset' := Emits.set hlevel' hemits'
  have hrecord : Invocation.configRecord (({ i with verbosity } : Invocation).configPath h'.home) =
      Invocation.configRecord (i.configPath h.home) := by
    rw [hhome]
    rfl
  rw [hrecord] at hset'
  refine ⟨_, .set hlevel hemits, hset', ?_⟩
  obtain ⟨filter, -, hrun⟩ := hlevel.run_eq
  obtain ⟨filter', -, hrun'⟩ := hlevel'.run_eq
  change h'.run words' = i.runConfigured config'.format _ (h'.source i) at hrun'
  rw [hrun, hrun', hformat, hsource]
  exact i.runConfigured_eq _ _ _ _

/-- Runs that differ in their levels emit the same, and come to the same in everything but
    the log. -/
theorem SameButLevel.exists_emits (hs : h.SameButLevel h' words words') :
    ∃ level level' emitted, h.Emits words level emitted ∧ h'.Emits words' level' emitted ∧
      h'.run words' = { h.run words with log := (h'.run words').log } := by
  obtain ⟨hasks, hhome, hguidance, hconfig, hsource⟩ := hs
  generalize hw : Invocation.ofWords words = asked at hasks
  generalize hw' : Invocation.ofWords words' = asked' at hasks
  cases hasks with
  | stopped stop =>
    have hrun : h'.run words' = h.run words := by rw [run, run, hw, hw', hguidance]
    refine ⟨0, 0, [], .unset (not_setsLevel_of_stopped hw),
      .unset (not_setsLevel_of_stopped hw'), ?_⟩
    rw [hrun]
  | asked i verbosity =>
    have hpath : ({ i with verbosity } : Invocation).configPath h'.home = i.configPath h.home := by
      rw [hhome]
      rfl
    rcases (hconfig i hw).levels with ⟨hsame, hnone⟩ |
      ⟨config, config', filter, filter', hload, hload', hfilter, hfilter', hformat⟩
    · -- Without a level neither run gets as far as to emit anything.
      have hrun : h'.run words' = h.run words := by
        simp only [run, hw, hw', hpath, hsame]
        exact Invocation.run_of_unset hnone _ _ _ _ _
      refine ⟨0, 0, [], .unset (not_setsLevel_of_unset hw hnone),
        .unset (not_setsLevel_of_unset hw' ?_), ?_⟩
      · rwa [hpath, hsame]
      · rw [hrun]
    · have hlevel : h.SetsLevel words i config _ := ⟨hw, hload, filter, hfilter, rfl⟩
      have hlevel' : h'.SetsLevel words' { i with verbosity } config' _ :=
        ⟨hw', by rwa [hpath], filter', hfilter', rfl⟩
      obtain ⟨emitted, hruns⟩ := hlevel.exists_emits hlevel' hhome hformat (hsource i hw)
      exact ⟨_, _, emitted, hruns⟩

/-- Runs that differ in the number of verbosity flags and in the level of the
    configuration alone print the same, with the same exit code and the same line that
    says why they failed. Both emit the same records, each of them shows those that its
    own level lets through, and so the run with the lower level shows those of the records
    that the other one shows that the lower level lets through. -/
theorem level_decides_records_alone (hs : h.SameButLevel h' words words') :
    (h'.run words').output = (h.run words).output ∧
    (h'.run words').code = (h.run words).code ∧
    (h'.run words').problem = (h.run words).problem ∧
    ∃ level level' emitted, h.Emits words level emitted ∧ h'.Emits words' level' emitted ∧
      (h.run words).Shows level emitted ∧ (h'.run words').Shows level' emitted ∧
      (level ≤ level' → (h.run words).log.records =
        (h'.run words').log.records.filter fun r => decide (r.level.rank ≤ level)) ∧
      (level' ≤ level → (h'.run words').log.records =
        (h.run words).log.records.filter fun r => decide (r.level.rank ≤ level')) := by
  obtain ⟨level, level', emitted, hemits, hemits', hrun⟩ := hs.exists_emits
  have hshows := hemits.shows
  have hshows' := hemits'.shows
  refine ⟨by rw [hrun], by rw [hrun], by rw [hrun], level, level', emitted, hemits, hemits',
    hshows, hshows', ?_, ?_⟩
  · intro hle
    rw [hshows.records, hshows'.records, Log.filter_filter_rank hle]
  · intro hle
    rw [hshows.records, hshows'.records, Log.filter_filter_rank hle]

/-- A source that is rejected, in two runs. Four flags raise a log that is off to the
    fourth level, and two flags raise one at the fourth level to the last one, where it
    stays. The second run shows the tokens as they are read, between the place of the
    configuration and the rejection. The first one shows the same without the tokens, in
    front of the line that says why it failed. -/
theorem level_decides_records_of_rejected_source :
    ∃ h h' : Host, h.input = "print ]".toUTF8 ∧ h'.input = h.input ∧
      h.SameButLevel h' ["parse", "-vvvv", "--config", "c"] ["parse", "-vv", "--config", "c"] ∧
      (h.run ["parse", "-vvvv", "--config", "c"]).log.records =
        [⟨.info, .program, "config: c"⟩,
          ⟨.debug, .grammar, "[1:7] item: expected item, found RIGHT_BRACKET ']'"⟩] ∧
      (h'.run ["parse", "-vv", "--config", "c"]).log.records =
        [⟨.info, .program, "config: c"⟩,
          ⟨.trace, .lexer, "1:1 PROCEDURE \"print\""⟩,
          ⟨.trace, .lexer, "1:7 RIGHT_BRACKET \"]\""⟩,
          ⟨.debug, .grammar, "[1:7] item: expected item, found RIGHT_BRACKET ']'"⟩] ∧
      (h.run ["parse", "-vvvv", "--config", "c"]).messages =
        ["[INFO lingo] config: c",
          "[DEBUG lingo::dsl::parser] [1:7] item: expected item, found RIGHT_BRACKET ']'",
          "syntax error: [1:7] item: expected item, found RIGHT_BRACKET ']'"] := by
  have hquiet : Config.ofText "log_level: off" = .ok ⟨.debug, "off"⟩ :=
    Config.eq_ok_of_toOption (by decide +kernel)
  have hloud : Config.ofText "log_level: debug" = .ok ⟨.debug, "debug"⟩ :=
    Config.eq_ok_of_toOption (by decide +kernel)
  have hi : Invocation.ofWords ["parse", "-vvvv", "--config", "c"] =
      .ok ⟨.parse none, none, some "c", 4⟩ := by cbv
  have hi' : Invocation.ofWords ["parse", "-vv", "--config", "c"] =
      .ok ⟨.parse none, none, some "c", 2⟩ := by cbv
  let h : Host :=
    { files := .directory [("c", .file "log_level: off".toUTF8)]
      input := "print ]".toUTF8
      home := "" }
  let h' : Host := { h with files := .directory [("c", .file "log_level: debug".toUTF8)] }
  have hload : Config.load h.files "c" = .ok ⟨.debug, "off"⟩ := Config.load_of_file (by cbv) hquiet
  have hload' : Config.load h'.files "c" = .ok ⟨.debug, "debug"⟩ :=
    Config.load_of_file (by cbv) hloud
  have hlevel : Config.levelFilter ⟨.debug, "off"⟩ = .ok .off := by cbv
  have hlevel' : Config.levelFilter ⟨.debug, "debug"⟩ = .ok (.upTo .debug) := by cbv
  have hs : h.SameButLevel h' ["parse", "-vvvv", "--config", "c"]
      ["parse", "-vv", "--config", "c"] := by
    have hasked : ∀ i, Invocation.ofWords ["parse", "-vvvv", "--config", "c"] = .ok i →
        i = ⟨.parse none, none, some "c", 4⟩ :=
      fun i h => Except.ok.inj (h.symm.trans hi)
    refine ⟨?_, rfl, rfl, ?_, ?_⟩
    · rw [hi, hi']
      exact .asked ⟨.parse none, none, some "c", 4⟩ 2
    · intro i h
      obtain rfl := hasked i h
      have hnamed := SameButLevelName.named hlevel hlevel'
      rwa [← hload, ← hload'] at hnamed
    · intro i h
      obtain rfl := hasked i h
      rfl
  have hset : h.SetsLevel ["parse", "-vvvv", "--config", "c"] _ _ 4 :=
    ⟨hi, hload, _, hlevel, rfl⟩
  have hset' : h'.SetsLevel ["parse", "-vv", "--config", "c"] _ _ 5 :=
    ⟨hi', hload', _, hlevel', rfl⟩
  have hrun' : h'.run ["parse", "-vv", "--config", "c"] =
      { code := .failure
        output := ""
        log := ⟨.upTo .trace,
          [⟨.debug, .grammar, "[1:7] item: expected item, found RIGHT_BRACKET ']'"⟩,
            ⟨.trace, .lexer, "1:7 RIGHT_BRACKET \"]\""⟩,
            ⟨.trace, .lexer, "1:1 PROCEDURE \"print\""⟩,
            ⟨.info, .program, "config: c"⟩]⟩
        problem := some "syntax error: [1:7] item: expected item, found RIGHT_BRACKET ']'" } := by
    have hsource : h'.source ⟨.parse none, none, some "c", 2⟩ = .ok "print ]" := by cbv
    have hpath : Invocation.configPath ⟨.parse none, none, some "c", 2⟩ h'.home = "c" := rfl
    rw [run, hi']
    simp only [Invocation.run, hpath, hload', hlevel', hsource]
    cbv
  obtain ⟨-, -, hproblem, level, level', emitted, hemits, hemits', hshows, -, hpart, -⟩ :=
    level_decides_records_alone hs
  obtain rfl := hemits.level_eq hset
  obtain rfl := hemits'.level_eq hset'
  have hrecords := hpart (by decide)
  rw [hrun'] at hrecords hproblem
  refine ⟨h, h', rfl, rfl, hs, hrecords, by rw [hrun']; rfl, ?_⟩
  rw [hshows.messages, ← hshows.records, hrecords, ← hproblem]
  decide

end Host

end CommandLine

end LogoSyntax
