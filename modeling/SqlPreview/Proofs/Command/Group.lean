import SqlPreview.Proofs.Command.Joined

namespace SqlPreview.Command

-- What a group of words is about.
inductive Subject where
  | setting (setting : Setting)
  | flag (flag : Flag)
  | file
deriving DecidableEq, Repr

-- Words that belong together: a setting with its value behind it or in the same word, a flag, or a file.
-- The value may be any text.
inductive Group where
  | apart (word : Text) (setting : Setting) (h : (word, setting) ∈ Word.settingWords) (value : Text)
  | joined (setting : Setting) (value : Text)
  | flag (word : Text) (raised : Flag) (h : (word, raised) ∈ Word.flagWords)
  | file (name : Text) (h : name.head? ≠ some '-' ∨ name = ['-'])

namespace Group

def words : Group → List Text
  | apart word _ _ value => [word, value]
  | joined setting value => [setting.joined value]
  | flag word _ _ => [word]
  | file name _ => [name]

def subject : Group → Subject
  | apart _ setting _ _ => .setting setting
  | joined setting _ => .setting setting
  | flag _ raised _ => .flag raised
  | file _ _ => .file

-- The text that a group gives: the value of its setting, without the repetitions of the name that a value
-- in the same word loses, the word of its flag, or the name of its file.
def said : Group → Text
  | apart _ _ _ value => value
  | joined setting value => Text.dropRepeats setting.lead value
  | flag word _ _ => word
  | file name _ => name

-- The arguments after a group has been read.
def apply (group : Group) (arguments : RenderArguments) : RenderArguments :=
  match group.subject with
  | .setting setting => arguments.set setting group.said
  | .flag raised => arguments.raise raised
  | .file => { arguments with file := arguments.file.or (some group.said) }

theorem file_apply (group : Group) (arguments : RenderArguments) :
    (group.apply arguments).file =
      if group.subject = .file then arguments.file.or (some group.said) else arguments.file := by
  rw [apply]
  cases group.subject with
  | setting setting => cases setting <;> rfl
  | flag raised => cases raised <;> rfl
  | file => rfl

end Group

-- What the groups on one subject say, in their order.
def about (subject : Subject) (groups : List Group) : List Text :=
  (groups.filter (·.subject = subject)).map Group.said

theorem about_cons (subject : Subject) (group : Group) (groups : List Group) :
    about subject (group :: groups) =
      if group.subject = subject then group.said :: about subject groups else about subject groups := by
  by_cases h : group.subject = subject
  · rw [about, List.filter_cons_of_pos (by simp [h]), List.map_cons, if_pos h, about]
  · rw [about, List.filter_cons_of_neg (by simp [h]), if_neg h, about]

namespace Word

variable {word : Text}

theorem lookup_settingWords {setting : Setting} (h : (word, setting) ∈ settingWords) :
    settingWords.lookup word = some setting := by
  simp only [settingWords, List.mem_cons, List.not_mem_nil, or_false, Prod.mk.injEq] at h
  rcases h with ⟨rfl, rfl⟩ | ⟨rfl, rfl⟩ | ⟨rfl, rfl⟩ | ⟨rfl, rfl⟩ <;> rfl

theorem ofRender_flagWord {raised : Flag} (h : (word, raised) ∈ flagWords) :
    ofRender word = .flag raised := by
  simp only [flagWords, List.mem_cons, List.not_mem_nil, or_false, Prod.mk.injEq] at h
  rcases h with ⟨rfl, rfl⟩ | ⟨rfl, rfl⟩ | ⟨rfl, rfl⟩ | ⟨rfl, rfl⟩ <;> rfl

theorem lookup_eq_none_of_head? {α : Type} {table : List (Text × α)} (h : word.head? ≠ some '-')
    (hdash : ∀ entry ∈ table, entry.1.head? = some '-') : table.lookup word = none := by
  apply List.lookup_eq_none_iff.mpr
  intro entry he
  apply bne_iff_ne.mpr
  rintro rfl
  exact h (hdash entry he)

-- A word without a dash at its front is a file.
theorem ofRender_of_head? (h : word.head? ≠ some '-') : ofRender word = .file word := by
  have hhelp : ¬helpWords.contains word := by
    have hdash : ∀ help ∈ helpWords, help.head? = some '-' := by decide
    rw [List.contains_iff_mem]
    exact fun hm => h (hdash word hm)
  have hsetting : settingWords.lookup word = none := lookup_eq_none_of_head? h (by decide)
  have hflag : flagWords.lookup word = none := lookup_eq_none_of_head? h (by decide)
  have hjoined : ∀ setting, joined? setting word = none := by
    intro setting
    have hlead : ¬setting.lead <+: word := by
      rintro ⟨rest, rfl⟩
      exact h (by cases setting <;> rfl)
    rw [joined?, ← Setting.lead, Text.after?_eq_none_iff.mpr hlead, Option.map_none]
  have hgiven : ([Setting.config, .param, .params].findSome? fun setting =>
      (joined? setting word).map (gives setting)) = none := by
    simp [hjoined]
  rw [ofRender, if_neg hhelp, hsetting, hflag]
  simp only [hgiven, h, false_and, if_false]

theorem ofRender_file (h : word.head? ≠ some '-' ∨ word = ['-']) : ofRender word = .file word := by
  rcases h with h | rfl
  · exact ofRender_of_head? h
  · rfl

end Word

-- A group is read as a whole.
theorem readRender_words (group : Group) (arguments : RenderArguments) (rest : List Text)
    (h : group.subject = .file → arguments.file = none) :
    readRender arguments (group.words ++ rest) = readRender (group.apply arguments) rest := by
  cases group with
  | apart word setting hw value =>
    have hword := Word.ofRender_of_lookup (Word.lookup_settingWords hw)
    simp only [Group.words, List.cons_append, List.nil_append, readRender_cons, hword]
    rfl
  | joined setting value =>
    simp only [Group.words, List.cons_append, List.nil_append, readRender_cons, Word.ofRender_joined]
    rfl
  | flag word raised hw =>
    have hword := Word.ofRender_flagWord hw
    simp only [Group.words, List.cons_append, List.nil_append, readRender_cons, hword]
    rfl
  | file name hn =>
    have hword := Word.ofRender_file hn
    have hfile : arguments.file = none := h rfl
    simp only [Group.words, List.cons_append, List.nil_append, readRender_cons, hword, hfile,
      Option.isNone_none, if_true, Group.apply, Group.subject, Group.said, Option.none_or]

namespace RenderArguments

-- Arguments with what a row of groups says. Of several values of a setting the last one counts, but
-- assignments add up; of several files the first one would count.
def amended (arguments : RenderArguments) (groups : List Group) : RenderArguments where
  config := (about (.setting .config) groups).getLast?.getD arguments.config
  file := arguments.file.or (about .file groups).head?
  assignments := arguments.assignments ++ about (.setting .param) groups
  paramsFile := (about (.setting .params) groups).getLast?.or arguments.paramsFile
  lint := arguments.lint && (about (.flag .noLint) groups).isEmpty
  denyWarnings := arguments.denyWarnings || !(about (.flag .denyWarnings) groups).isEmpty
  verbose := arguments.verbose || !(about (.flag .verbose) groups).isEmpty

theorem amended_nil (arguments : RenderArguments) : arguments.amended [] = arguments := by
  simp [amended, about]

theorem amended_cons (arguments : RenderArguments) (group : Group) (groups : List Group) :
    arguments.amended (group :: groups) = (group.apply arguments).amended groups := by
  simp only [amended, about_cons, Group.apply]
  cases group.subject with
  | setting setting => cases setting <;> simp [set, List.getLast?_cons]
  | flag raised => cases raised <;> simp [raise]
  | file => simp

end RenderArguments

-- Reading goes through the groups one by one.
theorem readRender_flatMap_words (groups : List Group) (arguments : RenderArguments)
    (h : arguments.file.toList.length + (about .file groups).length ≤ 1) :
    readRender arguments (groups.flatMap Group.words) =
      .ok (.render (arguments.amended groups).finish) := by
  induction groups generalizing arguments with
  | nil =>
    rw [RenderArguments.amended_nil]
    rfl
  | cons group groups ih =>
    rw [about_cons] at h
    have hfile : group.subject = .file → arguments.file = none := by
      intro hs
      rw [if_pos hs, List.length_cons] at h
      apply Option.toList_eq_nil_iff.mp
      apply List.eq_nil_of_length_eq_zero
      omega
    rw [List.flatMap_cons, readRender_words group arguments _ hfile, RenderArguments.amended_cons]
    apply ih
    rw [Group.file_apply]
    by_cases hs : group.subject = .file
    · rw [if_pos hs, List.length_cons] at h
      rw [if_pos hs, hfile hs, Option.none_or, Option.toList_some, List.length_singleton]
      omega
    · rw [if_neg hs] at h
      rwa [if_neg hs]

-- What a row of groups tells a render.
def RenderArguments.ofGroups (groups : List Group) : RenderArguments where
  config := (about (.setting .config) groups).getLast?.getD defaultConfig
  file := (about .file groups).head?.filter (· != ['-'])
  assignments := about (.setting .param) groups
  paramsFile := (about (.setting .params) groups).getLast?
  lint := (about (.flag .noLint) groups).isEmpty
  denyWarnings := !(about (.flag .denyWarnings) groups).isEmpty
  verbose := !(about (.flag .verbose) groups).isEmpty

theorem RenderArguments.finish_amended_default (groups : List Group) :
    (RenderArguments.default.amended groups).finish = .ofGroups groups := by
  simp [amended, finish, default, ofGroups]

-- A row of groups with one file at most is read as what its groups say: the last configuration and the
-- last parameter file, all assignments in their order, every flag, and the file. So the groups may stand in
-- any order in which those on one subject follow each other as before.
theorem read_groups (groups : List Group) (hfile : (about .file groups).length ≤ 1) :
    read (Verb.render.word :: groups.flatMap Group.words) = .ok (.render (.ofGroups groups)) ∧
      ∀ others : List Group,
        (∀ subject, others.filter (·.subject = subject) = groups.filter (·.subject = subject)) →
          read (Verb.render.word :: others.flatMap Group.words) =
            read (Verb.render.word :: groups.flatMap Group.words) := by
  have hread : ∀ row : List Group, (about .file row).length ≤ 1 →
      read (Verb.render.word :: row.flatMap Group.words) = .ok (.render (.ofGroups row)) := by
    intro row hrow
    have hwords := readRender_flatMap_words row .default (by simpa [RenderArguments.default] using hrow)
    rw [RenderArguments.finish_amended_default] at hwords
    exact hwords
  refine ⟨hread groups hfile, fun others horder => ?_⟩
  have habout : ∀ subject, about subject others = about subject groups := by
    intro subject
    rw [about, horder, about]
  have hothers : RenderArguments.ofGroups others = .ofGroups groups := by
    simp only [RenderArguments.ofGroups, habout]
  rw [hread groups hfile, hread others (by rwa [habout]), hothers]

-- Values that look like other groups, and a setting, a flag and a file that change places.
theorem read_groups_reordered :
    let config := Group.joined .config "--params".toList
    let again := Group.apart "--config".toList .config (by decide) "-h".toList
    let first := Group.apart "-p".toList .param (by decide) "--no-lint".toList
    let second := Group.joined .param "--param=x=1".toList
    let verbose := Group.flag "-v".toList .verbose (by decide)
    let file := Group.file "q.sql".toList (by decide)
    let groups := [config, first, file, again, second, verbose]
    let others := [verbose, first, second, config, again, file]
    let given : RenderArguments :=
      { RenderArguments.default with
        config := "-h".toList, file := some "q.sql".toList,
        assignments := ["--no-lint".toList, "x=1".toList], verbose := true }
    (about .file groups).length ≤ 1 ∧
      (∀ subject, others.filter (·.subject = subject) = groups.filter (·.subject = subject)) ∧
      others.flatMap Group.words =
        ["-v", "-p", "--no-lint", "--param=--param=x=1", "--config=--params", "--config", "-h",
          "q.sql"].map String.toList ∧
      read ("render".toList :: groups.flatMap Group.words) = .ok (.render given) ∧
      read ("render".toList :: others.flatMap Group.words) =
        read ("render".toList :: groups.flatMap Group.words) := by
  intro config again first second verbose file groups others given
  have hfile : (about .file groups).length ≤ 1 := by decide
  have horder : ∀ subject,
      others.filter (·.subject = subject) = groups.filter (·.subject = subject) := by
    intro subject
    cases subject with
    | setting setting => cases setting <;> rfl
    | flag raised => cases raised <;> rfl
    | file => rfl
  have hgiven : RenderArguments.ofGroups groups = given := by decide +kernel
  have hread := read_groups groups hfile
  rw [hgiven] at hread
  exact ⟨hfile, horder, rfl, hread.1, hread.2 others horder⟩

end SqlPreview.Command
