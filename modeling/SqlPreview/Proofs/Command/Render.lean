import SqlPreview.Command.Surroundings
import SqlPreview.Proofs.Command.Arguments
import SqlPreview.Proofs.Command.Files
import SqlPreview.Proofs.Command.Layers
import SqlPreview.Proofs.Template.Conservation

namespace SqlPreview

variable {σ : Type}

-- The process after a row of events, lines of warnings, more events, a printed text and more lines.
def Process.shown (host : Host σ) (early : List Event) (issues : Text) (late : List Event)
    (sql findings : Text) (s : Process σ) : Process σ :=
  ((((s.told host early).warned issues).told host late).printed sql).warned findings

theorem Process.stderr_shown (host : Host σ) (early : List Event) (issues : Text)
    (late : List Event) (sql findings : Text) (s : Process σ) :
    (s.shown host early issues late sql findings).stderr =
      s.stderr ++ host.logText s.filter s.events.length early ++ issues ++
        host.logText s.filter (s.events ++ early).length late ++ findings := rfl

theorem Process.warned_shown (host : Host σ) (early : List Event) (issues : Text)
    (late : List Event) (sql findings t : Text) (s : Process σ) :
    (s.shown host early issues late sql findings).warned t =
      s.shown host early issues late sql (findings ++ t) := by
  simp only [shown, warned, List.append_assoc]

theorem Process.shown_told (host : Host σ) (events early : List Event) (issues : Text)
    (late : List Event) (sql findings : Text) (s : Process σ) :
    (s.told host events).shown host early issues late sql findings =
      s.shown host (events ++ early) issues late sql findings := by
  simp only [shown, told_told]

namespace Command

open Attempt

def template? (files : Files) (input : Except FileFault ByteArray) : Option Text → Option Text
  | some path => (files.readText path).toOption
  | none => (input.bind FileFault.decode).toOption

theorem finds_readTemplate (host : Host σ) (file : Option Text) (s : Process σ) :
    (readTemplate file).Finds host s [] (template? (host.files s.disk) s.input file) := by
  cases file with
  | some path => exact finds_readFile (.readTemplate path) path s
  | none => exact finds_orFail .readInput (s.input.bind FileFault.decode) s

theorem outcome_ite_throw (host : Host σ) (passed : Bool) (failure : Failure) (s : Process σ) :
    (if passed then pure () else throw failure : Attempt Unit).outcome host s =
      (if passed then .ok () else .error failure, s) := by
  cases passed <;> rfl

-- The lines that tell of the issues of a template.
def issueLines (issues : List Issue) : Text :=
  issues.flatMap fun issue => "warning: ".toList ++ issue.message ++ ['\n']

def findingLines (findings : List Statement.Finding) : Text :=
  findings.flatMap fun finding => finding.line ++ ['\n']

-- The events of a template before it is rendered.
def parseEvents (template : Template) (params : Params) : List Event :=
  template.issueEvents ++ missingEvents template params

theorem outcome_showRender (host : Host σ) (lint denyWarnings : Bool) (template : Template)
    (params : Params) (s : Process σ) :
    let sql := template.render params
    let findings := if lint then Statement.findings sql else []
    (showRender lint denyWarnings template params).outcome host s =
      (if passes denyWarnings template.issues findings then .ok () else .error .checkFailed,
        s.shown host (parseEvents template params) (issueLines template.issues)
          (template.rendered params).events (sql ++ ['\n']) (findingLines findings)) := by
  intro sql findings
  refine (outcome_bind_of_ok (outcome_logAll _ _) _).trans ?_
  refine (outcome_bind_of_ok (outcome_forM_warn _ _ _) _).trans ?_
  refine (outcome_bind_of_ok (outcome_logAll _ _) _).trans ?_
  refine (outcome_bind_of_ok (outcome_print _ _) _).trans ?_
  refine (outcome_bind_of_ok (outcome_forM_warn _ _ _) _).trans ?_
  refine (outcome_ite_throw _ _ _ _).trans ?_
  simp only [issueLines, findingLines, List.append_assoc]
  rfl

variable {host : Host σ} {decoders : Decoders} {s : Process σ} {arguments : RenderArguments}
  {layers : Layers} {source : Text} {words : List Text}

-- A render has nothing to show: parameters cannot be read, or the template cannot be read, or it is
-- nothing but blanks.
def ShowsNothing (decoders : Decoders) (files : Files) (input : Except FileFault ByteArray)
    (arguments : RenderArguments) : Prop :=
  LayerFails decoders files arguments ∨
    ∀ source, template? files input arguments.file = some source → Text.allBlank source

theorem exists_of_not_showsNothing {files : Files} {input : Except FileFault ByteArray}
    (h : ¬ShowsNothing decoders files input arguments) :
    ∃ layers source, Layers.load? decoders files arguments = some layers ∧
      template? files input arguments.file = some source ∧ Text.allBlank source = false := by
  obtain ⟨hfails, hblank⟩ := not_or.1 h
  obtain ⟨layers, hload⟩ := Option.ne_none_iff_exists'.1 (mt Layers.load?_eq_none_iff.1 hfails)
  push Not at hblank
  obtain ⟨source, ht, hb⟩ := hblank
  exact ⟨layers, source, hload, ht, Bool.eq_false_iff.2 hb⟩

theorem outcome_runRender_of_showsNothing
    (h : ShowsNothing decoders (host.files s.disk) s.input arguments) :
    ∃ failure, (runRender decoders arguments).outcome host s =
      (.error failure, s.told host (loadEvents decoders (host.files s.disk) arguments.config)) := by
  by_cases hfails : LayerFails decoders (host.files s.disk) arguments
  · exact outcome_runRender_of_layerFails hfails
  · have hblank := h.resolve_left hfails
    obtain ⟨layers, hload⟩ := Option.ne_none_iff_exists'.1 (mt Layers.load?_eq_none_iff.1 hfails)
    have hloaded := outcome_loadParams hload
    obtain ⟨result, hread, hr⟩ := finds_readTemplate host arguments.file
      (s.told host (loadEvents decoders (host.files s.disk) arguments.config))
    rw [Process.told_nil] at hread
    cases result with
    | error failure =>
      exact ⟨failure, (outcome_bind_of_ok hloaded _).trans (outcome_bind_of_error hread _)⟩
    | ok source =>
      have hb : Text.allBlank source := hblank source hr.symm
      refine ⟨.noTemplate, (outcome_bind_of_ok hloaded _).trans
        ((outcome_bind_of_ok hread _).trans ?_)⟩
      rw [if_pos hb, outcome_throw]

theorem outcome_runRender (hload : Layers.load? decoders (host.files s.disk) arguments = some layers)
    (ht : template? (host.files s.disk) s.input arguments.file = some source)
    (hb : Text.allBlank source = false) :
    (runRender decoders arguments).outcome host s =
      (showRender (arguments.lint && layers.settings.lint)
        (arguments.denyWarnings || layers.settings.denyWarnings) (Template.parse source)
        layers.params.entries).outcome host
          (s.told host (loadEvents decoders (host.files s.disk) arguments.config)) := by
  obtain ⟨result, hread, hr⟩ := finds_readTemplate host arguments.file
    (s.told host (loadEvents decoders (host.files s.disk) arguments.config))
  rw [Process.told_nil] at hread
  cases result with
  | error failure => exact absurd (hr.trans ht) (by simp [Except.toOption])
  | ok found =>
    cases hr.trans ht
    refine (outcome_bind_of_ok (outcome_loadParams hload) _).trans
      ((outcome_bind_of_ok hread _).trans ?_)
    rw [if_neg (Bool.eq_false_iff.1 hb)]

-- The exit code of the program, and the process at its end.
def finished (host : Host σ) (decoders : Decoders) (words : List Text) (s : Process σ) :
    UInt32 × Process σ :=
  (program words decoders).run (Process.answer host) s

theorem finished_eq (host : Host σ) (decoders : Decoders) (words : List Text) (s : Process σ) :
    finished host decoders words s =
      match (run words decoders).outcome host s with
      | (.ok _, after) => (0, after)
      | (.error failure, after) => (1, after.warned failure.line) := by
  have hrun : finished host decoders words s =
      (conclude ((run words decoders).outcome host s).1).run (Process.answer host)
        ((run words decoders).outcome host s).2 := Dialogue.run_bind _ _ _ _
  rw [hrun]
  obtain ⟨_ | failure, after⟩ := (run words decoders).outcome host s <;> rfl

theorem finished_of_ite {passed : Bool} {failure : Failure} {after : Process σ}
    (h : (run words decoders).outcome host s =
      (if passed then .ok () else .error failure, after)) :
    finished host decoders words s =
      (if passed then 0 else 1, after.warned (if passed then [] else failure.line)) := by
  rw [finished_eq, h]
  cases passed with
  | true => simp [Process.warned]
  | false => rfl

theorem outcome_run (h : read words = .ok (.render arguments)) (s : Process σ) :
    (run words decoders).outcome host s =
      (runRender decoders arguments).outcome host (s.logging host arguments.verbose) := by
  rw [run, h]
  exact outcome_bind_of_ok (outcome_startLog arguments.verbose s) _

theorem finished_of_showsNothing (h : read words = .ok (.render arguments))
    (hn : ShowsNothing decoders (host.files s.disk) s.input arguments) :
    ∃ failure : Failure, finished host decoders words s =
      (1, ((s.logging host arguments.verbose).told host
        (loadEvents decoders (host.files s.disk) arguments.config)).warned failure.line) := by
  obtain ⟨failure, ho⟩ := outcome_runRender_of_showsNothing (s := s.logging host arguments.verbose) hn
  exact ⟨failure, by rw [finished_eq, outcome_run h, ho]; rfl⟩

theorem finished_of_shows (h : read words = .ok (.render arguments))
    (hload : Layers.load? decoders (host.files s.disk) arguments = some layers)
    (ht : template? (host.files s.disk) s.input arguments.file = some source)
    (hb : Text.allBlank source = false) :
    let template := Template.parse source
    let params := layers.params.entries
    let sql := template.render params
    let findings := if arguments.lint && layers.settings.lint then Statement.findings sql else []
    let passed := passes (arguments.denyWarnings || layers.settings.denyWarnings) template.issues
      findings
    let early := loadEvents decoders (host.files s.disk) arguments.config ++
      parseEvents template params
    finished host decoders words s =
      (if passed then 0 else 1,
        (s.logging host arguments.verbose).shown host early (issueLines template.issues)
          (template.rendered params).events (sql ++ ['\n'])
          (findingLines findings ++ if passed then [] else Failure.checkFailed.line)) := by
  intro template params sql findings passed early
  have ho := outcome_runRender (s := s.logging host arguments.verbose) hload ht hb
  rw [outcome_showRender, Process.shown_told] at ho
  rw [finished_of_ite ((outcome_run h s).trans ho), Process.warned_shown]
  rfl

theorem passes_eq_false_iff {lint deny : Bool} {issues : List Issue}
    {findings : List Statement.Finding} :
    passes deny issues (if lint then findings else []) = false ↔
      lint ∧ findings.any (·.isError) ∨
        deny ∧ (issues ≠ [] ∨ lint ∧ findings.any (·.isWarning)) := by
  have hempty : (!issues.isEmpty) = true ↔ issues ≠ [] := by
    simp
  rw [passes, Bool.not_eq_false', Bool.or_eq_true, Bool.and_eq_true, Bool.or_eq_true, hempty]
  cases lint <;> simp

-- To deny warnings makes nothing pass that did not.
theorem passes_of_passes_true {deny : Bool} {issues : List Issue}
    {findings : List Statement.Finding} (h : passes true issues findings) :
    passes deny issues findings := by
  cases deny with
  | true => exact h
  | false =>
    simp only [passes, Bool.true_and, Bool.not_or, Bool.and_eq_true] at h
    simp [passes, h.1]

theorem read_append_denyWarnings (h : read words = .ok (.render arguments)) :
    read (words ++ ["--deny-warnings".toList]) =
      .ok (.render { arguments with denyWarnings := true }) := by
  obtain ⟨rest, rfl, hrest⟩ := exists_readRender_of_read h
  have hword : Word.ofRender "--deny-warnings".toList = .flag .denyWarnings := by decide +kernel
  exact readRender_append_flag hword hrest

-- The same render with warnings denied prints the same, and fails where the other fails.
theorem denyWarnings_finished {denied : List Text} (h : read words = .ok (.render arguments))
    (hdenied : read denied = .ok (.render { arguments with denyWarnings := true })) :
    (finished host decoders denied s).2.stdout = (finished host decoders words s).2.stdout ∧
      ((finished host decoders words s).1 = 1 → (finished host decoders denied s).1 = 1) := by
  have hsame : Layers.load? decoders (host.files s.disk) { arguments with denyWarnings := true } =
      Layers.load? decoders (host.files s.disk) arguments := rfl
  by_cases hn : ShowsNothing decoders (host.files s.disk) s.input arguments
  · have hn' : ShowsNothing decoders (host.files s.disk) s.input
        { arguments with denyWarnings := true } := by
      rwa [ShowsNothing, ← Layers.load?_eq_none_iff, hsame, Layers.load?_eq_none_iff]
    obtain ⟨failure, hf⟩ := finished_of_showsNothing h hn
    obtain ⟨failure', hf'⟩ := finished_of_showsNothing hdenied hn'
    rw [hf, hf']
    exact ⟨rfl, fun _ => rfl⟩
  · obtain ⟨layers, source, hload, ht, hb⟩ := exists_of_not_showsNothing hn
    have hf := finished_of_shows h hload ht hb
    have hf' := finished_of_shows hdenied (hsame.trans hload) ht hb
    rw [hf, hf']
    refine ⟨rfl, fun hexit => if_neg fun hp => ?_⟩
    rw [if_pos (passes_of_passes_true hp)] at hexit
    cases hexit

-- Are checks on, and are warnings denied? The command line and the configuration both have a say.
def lints (words : List Text) (settings : Settings) : Bool :=
  !(flags words.tail).contains .noLint && settings.lint

def denies (words : List Text) (settings : Settings) : Bool :=
  (flags words.tail).contains .denyWarnings || settings.denyWarnings

-- The end of a render that has something to show, with the events of its log that `filter` shows at
-- their places. `loaded` are the events from before the template was parsed.
structure Shown (host : Host σ) (filter : Filter) (loaded : List Event) (lint deny : Bool)
    (template : Template) (params : Params) (exit : UInt32) (after : Process σ) : Prop where
  stdout : after.stdout = template.render params ++ ['\n']
  stderr : after.stderr =
    host.logText filter 0 (loaded ++ parseEvents template params) ++ issueLines template.issues ++
      host.logText filter (loaded ++ parseEvents template params).length
        (template.rendered params).events ++
      findingLines (if lint then Statement.findings (template.render params) else []) ++
      if exit = 1 then Failure.checkFailed.line else []
  ordered : template.issues.Pairwise fun one other => one.offset ≤ other.offset
  exit_eq_one_iff : exit = 1 ↔
    lint ∧ (Statement.findings (template.render params)).any (·.isError) ∨
      deny ∧ (template.issues ≠ [] ∨
        lint ∧ (Statement.findings (template.render params)).any (·.isWarning))

-- Where the log shows nothing, only the lines for issues and findings and the failure are left.
theorem Shown.stderr_of_silent {filter : Filter} {loaded : List Event} {lint deny : Bool}
    {template : Template} {params : Params} {exit : UInt32} {after : Process σ}
    (h : Shown host filter loaded lint deny template params exit after)
    (hf : ∀ event, filter event = false) :
    after.stderr = issueLines template.issues ++
      findingLines (if lint then Statement.findings (template.render params) else []) ++
      if exit = 1 then Failure.checkFailed.line else [] := by
  rw [h.stderr, Host.logText_eq_nil fun event _ => hf event,
    Host.logText_eq_nil fun event _ => hf event, List.nil_append, List.append_nil]

-- The end of a render of any kind, on any disk and with any readers of documents.
structure RenderOutcome (host : Host σ) (decoders : Decoders) (s : Process σ) (words : List Text)
    (arguments : RenderArguments) (exit : UInt32) (after : Process σ) : Prop where
  leavesFiles : (program words decoders).LeavesFiles
  disk : after.disk = s.disk
  exit_eq : exit = 0 ∨ exit = 1
  nothing : ShowsNothing decoders (host.files s.disk) s.input arguments →
    exit = 1 ∧ after.stdout = [] ∧ ∃ failure : Failure, after.stderr =
      host.logText (.choose arguments.verbose host.ambient) 0
        (loadEvents decoders (host.files s.disk) arguments.config) ++ failure.line
  shown : ¬ShowsNothing decoders (host.files s.disk) s.input arguments → ∃ layers source,
    Layers.load? decoders (host.files s.disk) arguments = some layers ∧
    template? (host.files s.disk) s.input arguments.file = some source ∧
    (∀ name, layers.params.get? name = layers.get? name) ∧
    Shown host (.choose arguments.verbose host.ambient)
      (loadEvents decoders (host.files s.disk) arguments.config) (lints words layers.settings)
      (denies words layers.settings) (Template.parse source) layers.params.entries exit after
  read_denied : read (words ++ ["--deny-warnings".toList]) =
    .ok (.render { arguments with denyWarnings := true })
  denied : ∀ denied, read denied = .ok (.render { arguments with denyWarnings := true }) →
    (finished host decoders denied s).2.stdout = after.stdout ∧
      (exit = 1 → (finished host decoders denied s).1 = 1)

theorem ite_zero_one_eq_one_iff (passed : Bool) :
    (if passed then 0 else 1 : UInt32) = 1 ↔ passed = false := by
  cases passed <;> decide

theorem ite_eq_ite_zero_one (passed : Bool) (line : Text) :
    (if passed then [] else line) = if (if passed then 0 else 1 : UInt32) = 1 then line else [] := by
  cases passed <;> rfl

theorem shown_of_load? {disk : σ} {input : Except FileFault ByteArray}
    (h : read words = .ok (.render arguments))
    (hload : Layers.load? decoders (host.files disk) arguments = some layers)
    (ht : template? (host.files disk) input arguments.file = some source)
    (hb : Text.allBlank source = false) :
    Shown host (.choose arguments.verbose host.ambient)
      (loadEvents decoders (host.files disk) arguments.config) (lints words layers.settings)
      (denies words layers.settings) (Template.parse source) layers.params.entries
      (finished host decoders words (.start disk input)).1
      (finished host decoders words (.start disk input)).2 := by
  obtain ⟨hlint, hdeny⟩ := flags_of_read h
  have hf := finished_of_shows (s := .start disk input) h hload ht hb
  rw [hlint, hdeny] at hf
  rw [hf]
  refine ⟨rfl, ?_, Template.pairwise_offset_issues source, ?_⟩
  · rw [Process.stderr_shown, ← List.append_assoc]
    exact congrArg (_ ++ ·) (ite_eq_ite_zero_one _ Failure.checkFailed.line)
  · rw [ite_zero_one_eq_one_iff, passes_eq_false_iff]
    rfl

-- The outcome of a render, for every command line that asks for one, on every disk, with every
-- standard input and with any readers of documents. It never asks for a change of a file. It fails
-- without a word on the standard output if a layer or the template is missing; otherwise it prints the
-- rendered template, with the lines for its issues in the order of their places and, if checks are on,
-- the lines for the findings beside it, and it fails over errors, and over warnings and issues if
-- these are denied. A failure has a line of its own at the end. To deny warnings changes nothing that
-- is printed, and no failure into success.
theorem render_outcome (host : Host σ) (decoders : Decoders) (disk : σ)
    (input : Except FileFault ByteArray) {words : List Text} {arguments : RenderArguments}
    (h : read words = .ok (.render arguments)) :
    let finished := finished host decoders words (.start disk input)
    RenderOutcome host decoders (.start disk input) words arguments finished.1 finished.2 where
  leavesFiles := leavesFiles_program h
  disk := Dialogue.disk_run (leavesFiles_program h) host _
  exit_eq := by
    rw [finished_eq]
    split
    · exact .inl rfl
    · exact .inr rfl
  nothing hn := by
    obtain ⟨failure, hf⟩ := finished_of_showsNothing h hn
    rw [hf]
    exact ⟨rfl, rfl, failure, rfl⟩
  shown hn := by
    obtain ⟨layers, source, hload, ht, hb⟩ := exists_of_not_showsNothing hn
    exact ⟨layers, source, hload, ht, Layers.get?_params layers, shown_of_load? h hload ht hb⟩
  read_denied := read_append_denyWarnings h
  denied _ hdenied := denyWarnings_finished h hdenied

-- A statement that deletes too much is printed, found fault with, and not let pass; and a template of
-- blanks prints nothing.
theorem render_outcome_deletesAll :
    let words := ["render".toList, "t.sql".toList, "-p".toList, "t=users".toList]
    let arguments : RenderArguments :=
      ⟨defaultConfig, some "t.sql".toList, ["t=users".toList], none, true, false, false⟩
    let host := FileTree.host none fun _ => Event.line
    let disk (source : Text) : FileTree :=
      ⟨[("t.sql".toList, .file (String.ofList source).toUTF8)], []⟩
    let source := "DELETE FROM $\x7bt\x7d".toList
    let whole := finished host .standard words (.start (disk source) (.ok .empty))
    let blank := finished host .standard words (.start (disk " \n".toList) (.ok .empty))
    read words = .ok (.render arguments) ∧
      whole.2.disk = disk source ∧ whole.2.stdout = "DELETE FROM users\n".toList ∧ whole.1 = 1 ∧
      whole.2.stderr = ("error[E002]: DELETE without WHERE clause will delete all rows\n" ++
        "render check failed\n").toList ∧
      blank.2.stdout = [] ∧ blank.1 = 1 := by
  intro words arguments host disk source whole blank
  have hread : read words = .ok (.render arguments) := by decide +kernel
  have hwhole := render_outcome host .standard (disk source) (.ok .empty) hread
  have hblank := render_outcome host .standard (disk " \n".toList) (.ok .empty) hread
  have hsettings : (Layers.load? .standard (host.files (disk source)) arguments).map (fun layers =>
      (lints words layers.settings, (Template.parse source).render layers.params.entries)) =
        some (true, "DELETE FROM users".toList) := by decide +kernel
  have hsource : template? (host.files (disk source)) (.ok .empty) arguments.file = some source := by
    decide +kernel
  have hshows : ¬ShowsNothing .standard (host.files (disk source)) (.ok .empty) arguments := by
    rintro (hfails | hall)
    · rw [Layers.load?_eq_none_iff.2 hfails] at hsettings
      cases hsettings
    · exact absurd (hall source hsource) (by decide)
  have hnothing : ShowsNothing .standard (host.files (disk " \n".toList)) (.ok .empty) arguments := by
    have hspaces : template? (host.files (disk " \n".toList)) (.ok .empty) arguments.file =
        some " \n".toList := by decide +kernel
    refine .inr fun source hs => ?_
    cases hspaces.symm.trans hs
    decide
  obtain ⟨layers, found, hload, ht, -, hshown⟩ := hwhole.shown hshows
  cases hsource.symm.trans ht
  obtain ⟨loaded, hloaded, hsettings⟩ := Option.map_eq_some_iff.1 hsettings
  cases hloaded.symm.trans hload
  obtain ⟨hlint, hsql⟩ := Prod.mk.inj hsettings
  obtain ⟨hfailed, hempty, -⟩ := hblank.nothing hnothing
  have hexit : whole.1 = 1 := by
    rw [hshown.exit_eq_one_iff, hlint, hsql]
    exact .inl (by decide +kernel)
  refine ⟨hread, hwhole.disk, ?_, hexit, ?_, hempty, hfailed⟩
  · rw [hshown.stdout, hsql]
    rfl
  · rw [hshown.stderr_of_silent Filter.default_eq_false, hlint, hsql, if_pos hexit]
    decide +kernel

-- A render that has something to show writes nothing to the standard error but the lines for the
-- issues of its template and for the findings.
def WritesLinesAlone (host : Host σ) (decoders : Decoders) (words : List Text) (s : Process σ) :
    Prop :=
  ∀ arguments layers source, read words = .ok (.render arguments) →
    Layers.load? decoders (host.files s.disk) arguments = some layers →
    template? (host.files s.disk) s.input arguments.file = some source →
    Text.allBlank source = false →
    let template := Template.parse source
    let findings := Statement.findings (template.render layers.params.entries)
    (finished host decoders words s).2.stderr =
      issueLines template.issues ++ if lints words layers.settings then findingLines findings else []

-- A check that fails has a line of its own, and a log that is asked for has its lines there too, also
-- where nothing is found fault with.
theorem not_writesLinesAlone :
    let host := FileTree.host none fun _ => Event.line
    let start (source : String) : Process FileTree :=
      .start ⟨[("t.sql".toList, .file source.toUTF8)], []⟩ (.ok .empty)
    let words := ["render".toList, "t.sql".toList]
    let verbose := words ++ ["-v".toList]
    ¬WritesLinesAlone host .standard words (start "DELETE FROM users") ∧
      (finished host .standard words (start "DELETE FROM users")).1 = 1 ∧
      ¬WritesLinesAlone host .standard verbose (start "SELECT 1") ∧
      (finished host .standard verbose (start "SELECT 1")).1 = 0 := by
  intro host start words verbose
  -- both runs load nothing at all
  have hloads (isVerbose : Bool) (source : String) :
      Layers.load? .standard (host.files (start source).disk)
        ⟨defaultConfig, some "t.sql".toList, [], none, true, false, isVerbose⟩ =
          some ⟨none, .empty, .empty, []⟩ := rfl
  refine ⟨fun h => ?_, by decide +kernel, fun h => ?_, by decide +kernel⟩
  · have hlines := h _ _ _ (by rfl) (hloads false _) (by rfl) (by decide +kernel)
    exact absurd hlines (by decide +kernel)
  · have hlines := h _ _ _ (by rfl) (hloads true _) (by rfl) (by decide +kernel)
    exact absurd hlines (by decide +kernel)

end Command

end SqlPreview
