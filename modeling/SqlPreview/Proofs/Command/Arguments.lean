import SqlPreview.Command.Arguments

namespace SqlPreview.Command

-- The flags that the words behind the name of the command raise. The word behind a setting that
-- wants a value is no flag.
def flags : List Text → List Flag
  | [] => []
  | word :: words =>
    match Word.ofRender word, words with
    | .wants _, _ :: words => flags words
    | .flag raised, words => raised :: flags words
    | _, words => flags words

theorem flags_cons (word : Text) (words : List Text) :
    flags (word :: words) =
      match Word.ofRender word, words with
      | .wants _, _ :: words => flags words
      | .flag raised, words => raised :: flags words
      | _, words => flags words :=
  flags.eq_def (word :: words)

namespace RenderArguments

@[simp]
theorem lint_set (setting : Setting) (value : Text) (arguments : RenderArguments) :
    (arguments.set setting value).lint = arguments.lint := by
  cases setting <;> rfl

@[simp]
theorem denyWarnings_set (setting : Setting) (value : Text) (arguments : RenderArguments) :
    (arguments.set setting value).denyWarnings = arguments.denyWarnings := by
  cases setting <;> rfl

theorem lint_raise (flag : Flag) (arguments : RenderArguments) :
    (arguments.raise flag).lint = (arguments.lint && !(Flag.noLint == flag)) := by
  cases flag <;> simp [raise]

theorem denyWarnings_raise (flag : Flag) (arguments : RenderArguments) :
    (arguments.raise flag).denyWarnings =
      (arguments.denyWarnings || Flag.denyWarnings == flag) := by
  cases flag <;> simp [raise]

theorem finish_raise (flag : Flag) (arguments : RenderArguments) :
    (arguments.raise flag).finish = arguments.finish.raise flag := by
  cases flag <;> rfl

end RenderArguments

variable {arguments result : RenderArguments} {words : List Text}

theorem flags_of_readRender (h : readRender arguments words = .ok (.render result)) :
    result.lint = (arguments.lint && !(flags words).contains .noLint) ∧
      result.denyWarnings = (arguments.denyWarnings || (flags words).contains .denyWarnings) := by
  fun_induction readRender arguments words with
  | case1 arguments =>
    cases h
    simp [flags, RenderArguments.finish]
  | case2 => cases h
  | case3 arguments word setting value words hw ih =>
    simpa [flags_cons, hw] using ih h
  | case4 => cases h
  | case5 arguments word setting value words hw ih =>
    simpa [flags_cons, hw] using ih h
  | case6 arguments word flag words hw ih =>
    obtain ⟨hlint, hdeny⟩ := ih h
    rw [hlint, hdeny, RenderArguments.lint_raise, RenderArguments.denyWarnings_raise, flags_cons, hw]
    simp only [List.contains_cons, Bool.not_or, Bool.and_assoc, Bool.or_assoc, and_self]
  | case7 arguments word name words hw hfile ih => simpa [flags_cons, hw] using ih h
  | case8 => cases h
  | case9 => cases h

theorem readRender_cons (arguments : RenderArguments) (word : Text) (words : List Text) :
    readRender arguments (word :: words) =
      match Word.ofRender word, words with
      | .help, _ => .ok (.help .render)
      | .wants setting, value :: words => readRender (arguments.set setting value) words
      | .wants setting, [] => .error (.missingValue setting)
      | .gives setting value, words => readRender (arguments.set setting value) words
      | .flag flag, words => readRender (arguments.raise flag) words
      | .file name, words =>
        if arguments.file.isNone then readRender { arguments with file := some name } words
        else .error (.extraFile name)
      | .unknown, _ => .error (.unknownArgument word) :=
  readRender.eq_def arguments (word :: words)

-- One more flag at the end of a command line.
theorem readRender_append_flag {word : Text} {flag : Flag} (hw : Word.ofRender word = .flag flag)
    (h : readRender arguments words = .ok (.render result)) :
    readRender arguments (words ++ [word]) = .ok (.render (result.raise flag)) := by
  fun_induction readRender arguments words with
  | case1 arguments =>
    cases h
    simp [readRender, hw, RenderArguments.finish_raise]
  | case2 => cases h
  | case3 arguments first setting value words hfirst ih =>
    simpa [readRender_cons, hfirst] using ih h
  | case4 => cases h
  | case5 arguments first setting value words hfirst ih =>
    simpa [readRender_cons, hfirst] using ih h
  | case6 arguments first raised words hfirst ih => simpa [readRender_cons, hfirst] using ih h
  | case7 arguments first name words hfirst hfile ih =>
    simpa [readRender_cons, hfirst, hfile] using ih h
  | case8 => cases h
  | case9 => cases h

theorem readParams_ne_render {file : Option Text} : readParams file words ≠ .ok (.render result) := by
  fun_induction readParams file words <;> simp_all

theorem readInit_ne_render {config : Text} : readInit config words ≠ .ok (.render result) := by
  fun_induction readInit config words <;> simp_all

theorem exists_readRender_of_read (h : read words = .ok (.render result)) :
    ∃ rest, words = "render".toList :: rest ∧ readRender .default rest = .ok (.render result) := by
  unfold read at h
  split at h
  · cases h
  · next word rest =>
    split at h
    · cases h
    · split at h
      · exact absurd h readParams_ne_render
      · split at h
        · next hw => exact ⟨rest, by rw [hw], h⟩
        · split at h
          · exact absurd h readInit_ne_render
          · cases h

-- What a command line that asks for a render says about the two settings that a configuration has
-- as well.
theorem flags_of_read (h : read words = .ok (.render result)) :
    result.lint = !(flags words.tail).contains .noLint ∧
      result.denyWarnings = (flags words.tail).contains .denyWarnings := by
  obtain ⟨rest, rfl, hread⟩ := exists_readRender_of_read h
  simpa [RenderArguments.default] using flags_of_readRender hread

end SqlPreview.Command
