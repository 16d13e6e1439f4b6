import SqlPreview.Proofs.Parameter.Filled
import SqlPreview.Proofs.Statement.Finding
import SqlPreview.Proofs.Statement.Tidy
import SqlPreview.Proofs.Template.OptionalParts

namespace SqlPreview

namespace Statement

-- A text that a render leaves as it is at the front of a statement.
structure Front (s : Text) : Prop where
  ne_nil : s ≠ []
  angle_not_mem : '<' ∉ s
  ofSigil?_eq_none : ∀ c ∈ s, Form.ofSigil? c = none
  shieldChar_not_mem : Placeholder.shieldChar ∉ s
  evenBlanks_eq : evenBlanks s = s
  trim_eq : Text.trim s = s

theorem front_of_all_isWord {word : Text} (hne : word ≠ []) (hall : word.all Text.isWord) :
    Front word := by
  have hname : ∀ c ∈ word, Name.isNameChar c := fun c hc => by
    rw [Name.isNameChar, List.all_eq_true.mp hall c hc, Bool.true_or]
  have hblank : ∀ c ∈ word, Text.isBlank c = false := fun c hc => Name.isBlank_of_isNameChar (hname c hc)
  have hmem : ∀ c, Name.isNameChar c = false → c ∉ word := by
    intro c hc hm
    rw [hname c hm] at hc
    cases hc
  have hshield : Name.isNameChar Placeholder.shieldChar = false := by decide +kernel
  have heven := evenBlanks_append_run hblank []
  rw [List.append_nil, evenBlanks_nil, List.append_nil] at heven
  exact ⟨hne, hmem '<' (by decide), fun c hc => Placeholder.ofSigil?_of_isNameChar (hname c hc),
    hmem _ hshield, heven, Text.trim_eq_self hblank⟩

-- With one space between them.
theorem Front.append {s t : Text} (hs : Front s) (ht : Front t) : Front (s ++ ' ' :: t) := by
  have heven : evenBlanks (s ++ ' ' :: t) = s ++ ' ' :: t := by
    obtain ⟨c, t, rfl⟩ := List.exists_cons_of_ne_nil ht.ne_nil
    have hc := (Text.trim_eq_self_iff.mp ht.trim_eq).1 c rfl
    have hlast := (Text.trim_eq_self_iff.mp hs.trim_eq).2
    have hstep := evenBlanks_append_cons hc [' '] t
    have hself := evenBlanks_append_cons hc [] t
    have hspace : evenBlanks [' '] = [' '] := by decide +kernel
    rw [List.nil_append, ht.evenBlanks_eq, evenBlanks_nil, List.nil_append] at hself
    rw [List.singleton_append, ← hself, hspace, List.singleton_append] at hstep
    rw [evenBlanks_append_of_getLast? hlast, hs.evenBlanks_eq, hstep]
  have htrim := Text.trim_append_append_eq_self hs.ne_nil ht.ne_nil hs.trim_eq ht.trim_eq [' ']
  rw [List.append_assoc, List.singleton_append] at htrim
  refine ⟨by simp, ?_, ?_, ?_, heven, htrim⟩
  · simp [hs.angle_not_mem, ht.angle_not_mem]
  · intro c hc
    rcases List.mem_append.mp hc with hc | hc
    · exact hs.ofSigil?_eq_none c hc
    · rcases List.mem_cons.mp hc with rfl | hc
      · rfl
      · exact ht.ofSigil?_eq_none c hc
  · have hshield : Placeholder.shieldChar ≠ ' ' := by decide
    simp [hs.shieldChar_not_mem, ht.shieldChar_not_mem, hshield]

-- The rest of the statement is filled and tidied by itself.
theorem Front.tidy_append {s : Text} (hs : Front s) (params : Params) (t : Text) :
    tidy (Placeholder.unshield (Placeholder.fillAll params (s ++ t))) =
      s ++ Text.trimEnd (tidyWithin (Placeholder.unshield (Placeholder.fillAll params t))) := by
  rw [Placeholder.fillAll, Placeholder.replace_append_of_no_sigil hs.ofSigil?_eq_none,
    Placeholder.unshield_append, Placeholder.unshield_eq_self hs.shieldChar_not_mem,
    tidy_append_of_evenBlanks hs.ne_nil hs.angle_not_mem hs.evenBlanks_eq hs.trim_eq, Placeholder.fillAll]

end Statement

namespace OptionalPart

-- A DELETE with a WHERE block.
def deleteSource (table : Text) (parts : List OptionalPart) : Text :=
  "DELETE FROM ".toList ++ table ++ ' ' :: whereSource parts

section Delete

variable {table : Text} (hne : table ≠ []) (hword : ∀ c ∈ table, Text.isWord c)
include hne hword

theorem front_delete : Statement.Front ("DELETE FROM ".toList ++ table) := by
  have hdelete : Statement.Front "DELETE".toList :=
    Statement.front_of_all_isWord (by decide) (by decide)
  have hfrom : Statement.Front "FROM".toList := Statement.front_of_all_isWord (by decide) (by decide)
  have htable : Statement.Front table :=
    Statement.front_of_all_isWord hne (List.all_eq_true.mpr hword)
  have hjoin : "DELETE FROM ".toList = "DELETE".toList ++ ' ' :: "FROM".toList ++ [' '] := by decide
  have hfront := (hdelete.append hfrom).append htable
  rwa [List.append_cons, ← hjoin] at hfront

-- The statement ends behind the name of the table, or has a WHERE clause that is filled and tidied.
theorem render_deleteSource (params : Params) (parts : List OptionalPart) :
    render (deleteSource table parts) params = "DELETE FROM ".toList ++ table ++
      if kept params parts = [] then [] else ' ' :: "WHERE".toList ++ Text.trimEnd
        (Statement.tidyWithin (Placeholder.unshield (Placeholder.fillAll params
          (' ' :: " and ".toList.intercalate (kept params parts))))) := by
  have hfront := front_delete hne hword
  have hprint : Node.printAll (.text ("DELETE FROM ".toList ++ table ++ [' ']) :: whereNodes parts) =
      deleteSource table parts := by
    rw [Node.printAll_text, printAll_whereNodes, List.append_assoc]
    rfl
  have hlawful : Node.LawfulAll (.text ("DELETE FROM ".toList ++ table ++ [' ']) :: whereNodes parts) := by
    have hangle : '<' ∉ "DELETE FROM ".toList ++ table ++ [' '] := by
      rw [List.mem_append, not_or]
      exact ⟨hfront.angle_not_mem, by decide⟩
    exact Node.lawfulAll_text.mpr ⟨Tag.isCalm_of_not_mem hangle, lawfulAll_whereNodes parts⟩
  rw [← hprint, Template.render_printAll hlawful, Node.expansion_text, expansion_whereNodes rfl rfl]
  by_cases hkept : kept params parts = []
  · have hspace : Placeholder.fillAll params [' '] = [' '] :=
      (Placeholder.fillAll_space_cons params []).trans (congrArg _ (Mark.replace_nil _ _))
    have htidy : Text.trimEnd (Statement.tidyWithin (Placeholder.unshield [' '])) = [] := by
      decide +kernel
    rw [if_pos hkept, if_pos hkept, List.append_nil, hfront.tidy_append, hspace, htidy]
  · have hwhere : Statement.Front "WHERE".toList :=
      Statement.front_of_all_isWord (by decide) (by decide)
    have hregroup : ∀ predicates : Text,
        "DELETE FROM ".toList ++ table ++ [' '] ++ ("WHERE ".toList ++ predicates) =
          "DELETE FROM ".toList ++ table ++ ' ' :: "WHERE".toList ++ ' ' :: predicates := by
      intro predicates
      simp
    rw [if_neg hkept, if_neg hkept, hregroup, (hfront.append hwhere).tidy_append, List.append_assoc]

-- The word `where` is found in the statement if and only if it has the clause.
theorem hasWord_render_deleteSource (hwhere : Text.spells "where".toList table = false) (params : Params)
    (parts : List OptionalPart) :
    Text.hasWord "where".toList (render (deleteSource table parts) params) = false ↔
      kept params parts = [] := by
  have hlength : "where".toList.length ≠ 1 := by decide
  have hdelete : Text.hasWord "where".toList "DELETE FROM ".toList = false := by decide
  have hspace : Text.isWord ' ' = false := by decide
  have hlast : ∀ c ∈ "DELETE FROM ".toList.getLast?, Text.isWord c = false := by
    rintro c ⟨⟩
    exact hspace
  have hfront : Text.hasWord "where".toList ("DELETE FROM ".toList ++ table) = false := by
    rw [Text.hasWord_append_of_getLast? hlength hlast, hdelete, Text.hasWord_of_forall_word hne hword,
      hwhere, Bool.or_false]
  rw [render_deleteSource hne hword]
  by_cases hkept : kept params parts = []
  · rw [if_pos hkept, List.append_nil, hfront]
    exact iff_of_true rfl hkept
  · have hfill := Placeholder.fillAll_space_cons params (" and ".toList.intercalate (kept params parts))
    have hhead := Statement.head?_trimEnd_tidyWithin_space (Placeholder.unshield
      (Placeholder.fillAll params (" and ".toList.intercalate (kept params parts))))
    have hclause : Text.hasWord "where".toList "WHERE".toList = true := by decide
    rw [if_neg hkept, hfill, Placeholder.unshield_space_cons, List.cons_append,
      Text.hasWord_append_cons hlength hspace,
      Text.hasWord_append hlength _ fun c hc => hhead c hc ▸ hspace, hclause, Bool.true_or, Bool.or_true]
    exact iff_of_false (by decide) hkept

end Delete

theorem kept_eq_nil_iff (params : Params) (parts : List OptionalPart) :
    kept params parts = [] ↔ ∀ part ∈ parts, ¬part.isKept params := by
  rw [kept, List.map_eq_nil_iff, List.filter_eq_nil_iff]

-- The missing filter is reported for every table and all values, and nothing else is taken for it.
theorem deleteAll_reported_iff (params : Params) (parts : List OptionalPart) {table : Text}
    (hne : table ≠ []) (hascii : ∀ c ∈ table, c.isAlphanum || c == '_')
    (hwhere : table.map Char.toLower ≠ "where".toList) :
    "E002".toList ∈ (Statement.findings (render (deleteSource table parts) params)).map
        Statement.Finding.code ↔
      ∀ part ∈ parts, ¬part.isKept params := by
  have hword : ∀ c ∈ table, Text.isWord c := fun c hc => Text.isWord_of_isAlphanum (hascii c hc)
  have hspells : Text.spells "where".toList table = false := by
    have hfold : table.map Text.foldCase = table.map Char.toLower :=
      List.map_congr_left fun c hc => Text.foldCase_of_isAlphanum (hascii c hc)
    rw [Text.spells, hfold, beq_eq_false_iff_ne]
    exact hwhere
  have hkind : Statement.kind? (render (deleteSource table parts) params) = some .delete := by
    have hjoin : "DELETE FROM ".toList = "DELETE".toList ++ ' ' :: "FROM ".toList := by decide
    rw [render_deleteSource hne hword, hjoin, List.append_assoc, List.append_assoc, List.cons_append]
    exact Statement.kind?_verb_append (by decide) (by decide) _
  rw [← kept_eq_nil_iff, ← hasWord_render_deleteSource hne hword hspells params]
  exact Statement.code_deleteAll_mem_iff hkind

-- Without values, and with one that looks like a comment and the beginning of a tag.
theorem deleteAll_reported_iff_users :
    let parts : List OptionalPart :=
      [⟨"a".toList, "id = #\x7ba\x7d".toList, by decide, by decide, by decide, by decide, by decide⟩,
        ⟨"b.c".toList, "$\x7bb.c\x7d".toList, by decide, by decide, by decide, by decide, by decide⟩]
    let table := "Users_2".toList
    let codes := fun params : Params =>
      (Statement.findings (render (deleteSource table parts) params)).map Statement.Finding.code
    table ≠ [] ∧ (∀ c ∈ table, c.isAlphanum || c == '_') ∧ table.map Char.toLower ≠ "where".toList ∧
      "E002".toList ∈ codes [("a".toList, .text "\t".toList)] ∧
      "E002".toList ∉ codes [("b.c".toList, .text "/* <if ".toList)] := by
  intro parts table codes
  have hne : table ≠ [] := by decide
  have hascii : ∀ c ∈ table, c.isAlphanum || c == '_' := List.all_eq_true.mp (by decide)
  have hwhere : table.map Char.toLower ≠ "where".toList := by decide
  refine ⟨hne, hascii, hwhere, ?_, fun h => ?_⟩
  · exact (deleteAll_reported_iff _ parts hne hascii hwhere).mpr (by decide)
  · have hnone := (deleteAll_reported_iff _ parts hne hascii hwhere).mp h
    revert hnone
    decide

end OptionalPart

end SqlPreview
