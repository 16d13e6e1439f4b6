import SqlPreview.Proofs.Command.Arguments

namespace SqlPreview

namespace Text

variable {lead : Text}

theorem after?_eq_none_iff {t : Text} : after? lead t = none ↔ ¬lead <+: t := by
  rw [Option.eq_none_iff_forall_ne_some]
  refine ⟨fun h hprefix => ?_, fun h rest hrest => h ⟨rest, (after?_eq_some_iff.mp hrest).symm⟩⟩
  obtain ⟨rest, rfl⟩ := hprefix
  exact h rest (after?_eq_some_iff.mpr rfl)

-- A text is a number of copies of the lead and what remains without them.
theorem exists_dropRepeats (hlead : lead ≠ []) (t : Text) :
    ∃ count, t = (List.replicate count lead).flatten ++ dropRepeats lead t ∧
      ¬lead <+: dropRepeats lead t := by
  fun_induction dropRepeats lead t with
  | case1 t rest hrest hnil => exact absurd hnil hlead
  | case2 t rest hrest _ ih =>
    obtain ⟨count, hcount, hnot⟩ := ih
    refine ⟨count + 1, ?_, hnot⟩
    rw [List.replicate_succ, List.flatten_cons, List.append_assoc, ← hcount]
    exact after?_eq_some_iff.mp hrest
  | case3 t hnone => exact ⟨0, rfl, after?_eq_none_iff.mp hnone⟩

theorem dropRepeats_eq_self_iff (hlead : lead ≠ []) {t : Text} :
    dropRepeats lead t = t ↔ ¬lead <+: t := by
  obtain ⟨count, hcount, hnot⟩ := exists_dropRepeats hlead t
  refine ⟨fun h => h ▸ hnot, fun h => ?_⟩
  cases count with
  | zero => exact hcount.symm
  | succ count =>
    rw [List.replicate_succ, List.flatten_cons, List.append_assoc] at hcount
    exact absurd ⟨_, hcount.symm⟩ h

end Text

namespace Command

-- A setting and its value in one word.
def Setting.joined (setting : Setting) (value : Text) : Text :=
  setting.name ++ '=' :: value

-- What a word begins with in which a setting has its value.
def Setting.lead (setting : Setting) : Text :=
  setting.name ++ ['=']

theorem Setting.lead_ne_nil (setting : Setting) : setting.lead ≠ [] := by
  simp [Setting.lead]

-- The commands that take settings.
inductive Verb where
  | render
  | init

namespace Verb

def word : Verb → Text
  | render => "render".toList
  | init => "init".toList

-- The words that want a value behind them.
def settings : Verb → List (Text × Setting)
  | render => Word.settingWords
  | init => [(Setting.config.name, .config)]

def wants (verb : Verb) (word : Text) : Bool :=
  (verb.settings.lookup word).isSome

theorem wants_init {word : Text} : init.wants word ↔ word = Setting.config.name := by
  simp [wants, settings]

-- Has every word of a row that wants a value one behind it? Then a word behind the row is not the value
-- of one of its words.
def complete (verb : Verb) : List Text → Bool
  | [] => true
  | word :: words =>
    if verb.wants word then
      match words with
      | [] => false
      | _ :: words => complete verb words
    else complete verb words

end Verb

namespace Word

variable {word : Text} {setting : Setting}

theorem ofRender_joined (setting : Setting) (value : Text) :
    ofRender (setting.joined value) = .gives setting (Text.dropRepeats setting.lead value) := by
  cases setting <;> rfl

theorem ofRender_name (setting : Setting) : ofRender setting.name = .wants setting := by
  cases setting <;> rfl

theorem joined?_config_joined (value : Text) :
    joined? .config (Setting.config.joined value) =
      some (Text.dropRepeats Setting.config.lead value) :=
  rfl

theorem ofRender_of_lookup (h : settingWords.lookup word = some setting) :
    ofRender word = .wants setting := by
  have hhelp : ∀ help ∈ helpWords, settingWords.lookup help = none := by decide
  have hnot : ¬helpWords.contains word := by
    rw [List.contains_iff_mem]
    intro hm
    rw [hhelp word hm] at h
    cases h
  rw [ofRender, if_neg hnot, h]

theorem ofRender_ne_wants (h : settingWords.lookup word = none) : ofRender word ≠ .wants setting := by
  have hgives : ∀ found, ([Setting.config, .param, .params].findSome? fun setting =>
      (joined? setting word).map (gives setting)) = some found → found ≠ .wants setting := by
    intro found hfound
    obtain ⟨given, -, hjoined⟩ := List.exists_of_findSome?_eq_some hfound
    obtain ⟨value, -, rfl⟩ := Option.map_eq_some_iff.mp hjoined
    exact nofun
  rw [ofRender, h]
  split
  · exact nofun
  · split
    · next heq => cases heq
    · exact nofun
    · split
      · next found hfound => exact hgives found hfound
      · split <;> exact nofun

end Word

variable {words before : List Text}

-- Reading a row of words in which no value is missing either ends the reading, or it goes on behind them
-- from what they say.
theorem readRender_append (h : Verb.render.complete before) (arguments : RenderArguments) :
    (∃ result, ∀ rest, readRender arguments (before ++ rest) = result) ∨
      ∃ next, ∀ rest, readRender arguments (before ++ rest) = readRender next rest := by
  induction before using Verb.complete.induct Verb.render generalizing arguments with
  | case1 => exact .inr ⟨arguments, fun rest => rfl⟩
  | case2 word hw =>
    rw [Verb.complete, if_pos hw] at h
    cases h
  | case3 word hw value words ih =>
    rw [Verb.complete, if_pos hw] at h
    obtain ⟨setting, hs⟩ := Option.isSome_iff_exists.mp hw
    have hword := Word.ofRender_of_lookup hs
    simpa only [List.cons_append, readRender_cons, hword] using ih h (arguments.set setting value)
  | case4 word words hw ih =>
    rw [Verb.complete.eq_def] at h
    simp only [if_neg hw] at h
    have hnone := Option.not_isSome_iff_eq_none.mp hw
    simp only [List.cons_append, readRender_cons]
    cases hword : Word.ofRender word with
    | help => exact .inl ⟨_, fun rest => rfl⟩
    | wants setting => exact absurd hword (Word.ofRender_ne_wants hnone)
    | gives setting value => exact ih h _
    | flag raised => exact ih h _
    | file name =>
      by_cases hfile : arguments.file.isNone
      · simpa only [if_pos hfile] using ih h _
      · exact .inl ⟨_, fun rest => if_neg hfile⟩
    | unknown => exact .inl ⟨_, fun rest => rfl⟩

theorem readInit_cons (config word : Text) (words : List Text) :
    readInit config (word :: words) =
      if Word.helpWords.contains word then .ok (.help .init)
      else if word = Setting.config.name then
        match words with
        | value :: words => readInit value words
        | [] => .error (.missingValue .config)
      else
        match Word.joined? .config word with
        | some value => readInit value words
        | none => .error (.unknownArgument word) :=
  readInit.eq_def config (word :: words)

theorem readInit_append (h : Verb.init.complete before) (config : Text) :
    (∃ result, ∀ rest, readInit config (before ++ rest) = result) ∨
      ∃ next, ∀ rest, readInit config (before ++ rest) = readInit next rest := by
  induction before using Verb.complete.induct Verb.init generalizing config with
  | case1 => exact .inr ⟨config, fun rest => rfl⟩
  | case2 word hw =>
    rw [Verb.complete, if_pos hw] at h
    cases h
  | case3 word hw value words ih =>
    rw [Verb.complete, if_pos hw] at h
    simp only [List.cons_append, readInit_cons, Verb.wants_init.mp hw]
    exact ih h value
  | case4 word words hw ih =>
    rw [Verb.complete.eq_def] at h
    simp only [if_neg hw] at h
    have hword : word ≠ Setting.config.name := fun heq => hw (Verb.wants_init.mpr heq)
    simp only [List.cons_append, readInit_cons, if_neg hword]
    by_cases hhelp : Word.helpWords.contains word
    · exact .inl ⟨_, fun rest => if_pos hhelp⟩
    · simp only [if_neg hhelp]
      cases hjoined : Word.joined? .config word with
      | none => exact .inl ⟨_, fun rest => rfl⟩
      | some value => exact ih h value

namespace RenderArguments

-- Arguments with one more setting, whose value is left open, and with the assignments behind it.
def placed (setting : Setting) (arguments : RenderArguments) (later : List Text) (value : Text) :
    RenderArguments :=
  let given := arguments.set setting value
  { given with assignments := given.assignments ++ later }

variable {setting : Setting} {arguments : RenderArguments} {later : List Text}

theorem placed_nil (setting : Setting) (arguments : RenderArguments) (value : Text) :
    placed setting arguments [] value = arguments.set setting value := by
  simp only [placed, List.append_nil]

theorem file_placed (value : Text) : (placed setting arguments later value).file = arguments.file := by
  cases setting <;> rfl

theorem raise_placed (flag : Flag) (value : Text) :
    (placed setting arguments later value).raise flag =
      placed setting (arguments.raise flag) later value := by
  cases setting <;> cases flag <;> rfl

theorem withFile_placed (name value : Text) :
    { placed setting arguments later value with file := some name } =
      placed setting { arguments with file := some name } later value := by
  cases setting <;> rfl

-- The next setting takes the place of an open one of its kind, unless it is an assignment.
theorem set_placed (setting : Setting) (arguments : RenderArguments) (later : List Text) (other : Setting)
    (value : Text) :
    (∃ next later', ∀ unknown, (placed setting arguments later unknown).set other value =
        placed setting next later' unknown) ∨
      ∃ next, ∀ unknown, (placed setting arguments later unknown).set other value = next := by
  cases other with
  | param =>
    refine .inl ⟨arguments, later ++ [value], fun unknown => ?_⟩
    cases setting <;> simp only [placed, set, List.append_assoc]
  | config =>
    cases setting with
    | config => exact .inr ⟨placed .config arguments later value, fun unknown => rfl⟩
    | param => exact .inl ⟨arguments.set .config value, later, fun unknown => rfl⟩
    | params => exact .inl ⟨arguments.set .config value, later, fun unknown => rfl⟩
  | params =>
    cases setting with
    | config => exact .inl ⟨arguments.set .params value, later, fun unknown => rfl⟩
    | param => exact .inl ⟨arguments.set .params value, later, fun unknown => rfl⟩
    | params => exact .inr ⟨placed .params arguments later value, fun unknown => rfl⟩

-- At the end the value is found again.
theorem finish_placed_injective :
    Function.Injective fun value => (placed setting arguments later value).finish := by
  intro value value' h
  cases setting with
  | config => exact congrArg config h
  | param =>
    have hassignments : arguments.assignments ++ [value] ++ later =
        arguments.assignments ++ [value'] ++ later := congrArg assignments h
    rw [List.append_left_inj, List.append_right_inj] at hassignments
    exact List.singleton_inj.mp hassignments
  | params => exact Option.some_inj.mp (congrArg paramsFile h)

end RenderArguments

open RenderArguments (placed)

-- A result that depends on a value tells every two values apart, or none.
def AllOrNone {α : Type} (result : Text → α) : Prop :=
  Function.Injective result ∨ ∃ always, ∀ value, result value = always

theorem allOrNone_set {setting : Setting} {words : List Text}
    (h : ∀ arguments later, AllOrNone fun value => readRender (placed setting arguments later value) words)
    (arguments : RenderArguments) (later : List Text) (other : Setting) (given : Text) :
    AllOrNone fun value => readRender ((placed setting arguments later value).set other given) words := by
  rcases RenderArguments.set_placed setting arguments later other given with
    ⟨next, later', hnext⟩ | ⟨next, hnext⟩
  · simp only [hnext]
    exact h next later'
  · simp only [hnext]
    exact .inr ⟨_, fun value => rfl⟩

-- What stands behind a setting passes its value on, or loses it.
theorem readRender_placed (setting : Setting) (arguments : RenderArguments) (later words : List Text) :
    AllOrNone fun value => readRender (placed setting arguments later value) words := by
  induction words using Verb.complete.induct Verb.render generalizing arguments later with
  | case1 =>
    refine .inl fun value value' h => ?_
    exact RenderArguments.finish_placed_injective (Arguments.render.inj (Except.ok.inj h))
  | case2 word hw =>
    obtain ⟨wanting, hs⟩ := Option.isSome_iff_exists.mp hw
    simp only [readRender_cons, Word.ofRender_of_lookup hs]
    exact .inr ⟨_, fun value => rfl⟩
  | case3 word hw given words ih =>
    obtain ⟨wanting, hs⟩ := Option.isSome_iff_exists.mp hw
    simp only [readRender_cons, Word.ofRender_of_lookup hs]
    exact allOrNone_set ih arguments later wanting given
  | case4 word words hw ih =>
    have hnone := Option.not_isSome_iff_eq_none.mp hw
    simp only [readRender_cons]
    cases hword : Word.ofRender word with
    | help => exact .inr ⟨_, fun value => rfl⟩
    | wants wanting => exact absurd hword (Word.ofRender_ne_wants hnone)
    | gives other given => exact allOrNone_set ih arguments later other given
    | flag raised =>
      simp only [RenderArguments.raise_placed]
      exact ih _ later
    | file name =>
      simp only [RenderArguments.file_placed, RenderArguments.withFile_placed]
      by_cases hfile : arguments.file.isNone
      · simp only [if_pos hfile]
        exact ih _ later
      · exact .inr ⟨_, fun value => if_neg hfile⟩
    | unknown => exact .inr ⟨_, fun value => rfl⟩

section Forms

variable (setting : Setting) (after : List Text)

theorem readRender_joined (h : Verb.render.complete before) (arguments : RenderArguments)
    (value : Text) :
    readRender arguments (before ++ setting.joined value :: after) =
      readRender arguments
        (before ++ setting.name :: Text.dropRepeats setting.lead value :: after) := by
  rcases readRender_append h arguments with ⟨result, hend⟩ | ⟨next, hnext⟩
  · rw [hend, hend]
  · rw [hnext, hnext, readRender_cons, Word.ofRender_joined, readRender_cons, Word.ofRender_name]

theorem allOrNone_readRender (h : Verb.render.complete before) (arguments : RenderArguments) :
    AllOrNone fun value => readRender arguments (before ++ setting.name :: value :: after) := by
  rcases readRender_append h arguments with ⟨result, hend⟩ | ⟨next, hnext⟩
  · exact .inr ⟨result, fun value => hend _⟩
  · have hplaced := readRender_placed setting next [] after
    simp only [RenderArguments.placed_nil] at hplaced
    simp only [hnext, readRender_cons, Word.ofRender_name]
    exact hplaced

theorem readInit_joined (h : Verb.init.complete before) (config value : Text) :
    readInit config (before ++ Setting.config.joined value :: after) =
      readInit config
        (before ++ Setting.config.name :: Text.dropRepeats Setting.config.lead value :: after) := by
  rcases readInit_append h config with ⟨result, hend⟩ | ⟨next, hnext⟩
  · rw [hend, hend]
  · have hhelp : Word.helpWords.contains (Setting.config.joined value) = false := rfl
    have hname : Setting.config.joined value ≠ Setting.config.name := by simp [Setting.joined]
    rw [hnext, hnext, readInit_cons, hhelp, if_neg Bool.false_ne_true, if_neg hname,
      Word.joined?_config_joined]
    rfl

theorem allOrNone_readInit (h : Verb.init.complete before) (config : Text) :
    AllOrNone fun value => readInit config (before ++ Setting.config.name :: value :: after) := by
  rcases readInit_append h config with ⟨result, hend⟩ | ⟨next, hnext⟩
  · exact .inr ⟨result, fun value => hend _⟩
  · have hread : ∀ value, readInit next (Setting.config.name :: value :: after) = readInit value after :=
      fun value => rfl
    simp only [hnext, hread]
    cases after with
    | nil => exact .inl fun value value' h => Arguments.init.inj (Except.ok.inj h)
    | cons word words => exact .inr ⟨_, fun value => readInit_cons value word words⟩

end Forms

-- A setting with its value in one word is read like the same setting with the value in the next word, if
-- the name and the equals sign do not stand again at the front of the value: there every repetition of
-- them is lost. The two are otherwise alike only where nothing depends on the value.
theorem read_joined (verb : Verb) (setting : Setting) (hs : (setting.name, setting) ∈ verb.settings)
    (before after : List Text) (value : Text) (hbefore : verb.complete before) :
    let inOne := read (verb.word :: (before ++ setting.joined value :: after))
    let inTwo := fun value => read (verb.word :: (before ++ setting.name :: value :: after))
    (∃ count rest, value = (List.replicate count setting.lead).flatten ++ rest ∧
        ¬setting.lead <+: rest ∧ inOne = inTwo rest) ∧
      (inOne = inTwo value ↔ ¬setting.lead <+: value ∨ ∀ other, inTwo other = inTwo value) := by
  intro inOne inTwo
  have hforms : inOne = inTwo (Text.dropRepeats setting.lead value) ∧ AllOrNone inTwo := by
    cases verb with
    | render =>
      exact ⟨readRender_joined setting after hbefore .default value,
        allOrNone_readRender setting after hbefore .default⟩
    | init =>
      obtain rfl : setting = .config := congrArg Prod.snd (List.mem_singleton.mp hs)
      exact ⟨readInit_joined after hbefore defaultConfig value,
        allOrNone_readInit after hbefore defaultConfig⟩
  obtain ⟨hone, htwo⟩ := hforms
  obtain ⟨count, hcount, hnot⟩ := Text.exists_dropRepeats setting.lead_ne_nil value
  refine ⟨⟨count, _, hcount, hnot, hone⟩, ?_⟩
  rw [hone]
  rcases htwo with hall | ⟨result, hresult⟩
  · rw [hall.eq_iff, Text.dropRepeats_eq_self_iff setting.lead_ne_nil]
    refine ⟨.inl, fun h => h.elim id fun h => ?_⟩
    rw [← Text.dropRepeats_eq_self_iff setting.lead_ne_nil]
    exact hall (h _)
  · simp only [hresult, implies_true, or_true]

-- A value that looks like other settings, behind a value that looks like this one.
theorem read_joined_params :
    let before := ["-p".toList, "--params".toList, "--no-lint".toList]
    let value := "--param=--params=a".toList
    let after := ["q.sql".toList]
    let given : RenderArguments :=
      { RenderArguments.default with
        file := some "q.sql".toList, assignments := ["--params".toList], paramsFile := some value,
        lint := false }
    (Setting.params.name, Setting.params) ∈ Verb.render.settings ∧ Verb.render.complete before ∧
      ¬Setting.params.lead <+: value ∧
      read ("render".toList :: (before ++ Setting.params.joined value :: after)) = .ok (.render given) ∧
      read ("render".toList :: (before ++ Setting.params.name :: value :: after)) =
        .ok (.render given) := by
  intro before value after given
  have hs : (Setting.params.name, Setting.params) ∈ Verb.render.settings := by decide
  have hbefore : Verb.render.complete before := by decide
  have hlead : ¬Setting.params.lead <+: value := by decide
  have htwo : read ("render".toList :: (before ++ Setting.params.name :: value :: after)) =
      .ok (.render given) := rfl
  have hforms := (read_joined .render .params hs before after value hbefore).2.mpr (.inl hlead)
  exact ⟨hs, hbefore, hlead, hforms.trans htwo, htwo⟩

-- A value that begins with the name of its setting and an equals sign loses both in one word.
theorem read_joined_repeated :
    let value := "--params=p.json".toList
    read ["render".toList, Setting.params.joined value] =
        .ok (.render { RenderArguments.default with paramsFile := some "p.json".toList }) ∧
      read ["render".toList, Setting.params.name, value] =
        .ok (.render { RenderArguments.default with paramsFile := some value }) ∧
      read ["render".toList, Setting.params.joined value] ≠
        read ["render".toList, Setting.params.name, value] := by
  intro value
  have hdrop : Text.dropRepeats Setting.params.lead value = "p.json".toList := by decide +kernel
  have hone : read ["render".toList, Setting.params.joined value] =
      .ok (.render { RenderArguments.default with
        paramsFile := some (Text.dropRepeats Setting.params.lead value) }) := rfl
  have htwo : read ["render".toList, Setting.params.name, value] =
      .ok (.render { RenderArguments.default with paramsFile := some value }) := rfl
  rw [hdrop] at hone
  refine ⟨hone, htwo, fun h => ?_⟩
  rw [hone, htwo] at h
  have hfile := congrArg RenderArguments.paramsFile (Arguments.render.inj (Except.ok.inj h))
  exact absurd hfile (by decide)

end Command

end SqlPreview
