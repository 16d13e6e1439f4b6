import SqlPreview.Proofs.Parameter.Filled
import SqlPreview.Proofs.Statement.Tidy
import SqlPreview.Proofs.Template.RoundTrip
import SqlPreview.Proofs.Template.Verbatim

namespace SqlPreview

namespace Template

theorem expansion_of_blockCount_eq_zero {source : Text} (h : (parse source).blockCount = 0)
    (plan : Plan) : Node.expansion plan (parse source).nodes = source := by
  have hnone : Node.heads (parse source).nodes = [] := by
    rw [← List.length_eq_zero_iff, Node.length_heads]
    exact h
  have hprint : Node.expansion plan (parse source).nodes = Node.printAll (parse source).nodes :=
    Node.expansion_eq_printAll fun head hm => by simp [hnone] at hm
  rw [hprint, printAll_parse]

theorem blockCount_parse_of_not_mem {source : Text} (h : '<' ∉ source) :
    (parse source).blockCount = 0 := by
  have hlawful : Node.LawfulAll [.text source] :=
    Node.lawfulAll_text.mpr ⟨Tag.isCalm_of_not_mem h, Node.lawfulAll_nil⟩
  have hprint : Node.printAll [.text source] = source := by simp
  have hnodes : (parse source).nodes = Node.joinTexts [.text source] := by
    rw [← hprint, parse_printAll hlawful, hprint]
  rw [blockCount, hnodes]
  cases source <;> rfl

end Template

theorem render_of_blockCount_eq_zero {source : Text} (h : (Template.parse source).blockCount = 0)
    (params : Params) :
    render source params =
      Statement.tidy (Placeholder.unshield (Placeholder.fillAll params source)) := by
  rw [render_eq_expansion, Template.expansion_of_blockCount_eq_zero h]

-- The shield character stands in a template, or in a value of one of its placeholders.
def MeetsShield (source : Text) (params : Params) : Prop :=
  Placeholder.shieldChar ∈ source ∨ ∃ p ∈ Placeholder.mark.all source,
    ∃ value ∈ params.get? p.name, Placeholder.shieldChar ∈ value.toText

theorem shieldChar_mem_fillAll_iff {source : Text} {params : Params} :
    Placeholder.shieldChar ∈ Placeholder.fillAll params source ↔ MeetsShield source params :=
  Placeholder.mem_fillAll_iff (by decide) (by decide) (by decide +kernel) (by decide)

-- A template without blocks is filled and tidied, as long as it does not meet the shield. If it does,
-- and no leftover tag could take the shield character away, the statement comes out different.
theorem render_blockless (source : Text) (params : Params)
    (h : (Template.parse source).blockCount = 0) :
    render source params =
        Statement.tidy (Placeholder.unshield (Placeholder.fillAll params source)) ∧
      (¬MeetsShield source params →
        render source params = Statement.tidy (Placeholder.fillAll params source)) ∧
      (MeetsShield source params → Statement.ifTag.all (Placeholder.fillAll params source) = [] →
        render source params ≠ Statement.tidy (Placeholder.fillAll params source)) := by
  have hrender := render_of_blockCount_eq_zero h params
  have hblank : Text.isBlank Placeholder.shieldChar = false := by decide
  refine ⟨hrender, fun hnone => ?_, fun hmeets htags heq => ?_⟩
  · rw [hrender, Placeholder.unshield_eq_self fun hm => hnone (shieldChar_mem_fillAll_iff.mp hm)]
  · have hkept : Placeholder.shieldChar ∈ Statement.tidy (Placeholder.fillAll params source) := by
      rw [← Text.mem_solid hblank, Statement.solid_tidy, Text.mem_solid hblank,
        Statement.withoutIfTags, Mark.replace_eq_self_of_all_eq_nil htags]
      exact shieldChar_mem_fillAll_iff.mpr hmeets
    rw [← heq, hrender] at hkept
    have hgone := Statement.mem_of_mem_tidy hblank hkept
    simp [Placeholder.unshield] at hgone

theorem render_blockless_between :
    let source := "a < #\x7bn\x7d > b".toList
    let params : Params := [("n".toList, .text "x\ue000y".toList)]
    (Template.parse source).blockCount = 0 ∧ MeetsShield source params ∧
      Statement.ifTag.all (Placeholder.fillAll params source) = [] ∧
      render source params = "a < \x27xy\x27 > b".toList ∧
      render source params ≠ Statement.tidy (Placeholder.fillAll params source) := by
  intro source params
  have hcount : (Template.parse source).blockCount = 0 := by decide +kernel
  have hmeets : MeetsShield source params :=
    .inr ⟨⟨.quoted, "n".toList⟩, by decide +kernel, .text "x\ue000y".toList, rfl, by decide⟩
  have htags : Statement.ifTag.all (Placeholder.fillAll params source) = [] := by decide +kernel
  exact ⟨hcount, hmeets, htags, by decide +kernel,
    (render_blockless source params hcount).2.2 hmeets htags⟩

-- The template itself loses a character, without any value.
theorem render_blockless_shieldChar :
    let source := "a\ue000b".toList
    (Template.parse source).blockCount = 0 ∧ render source [] = "ab".toList ∧
      Statement.tidy (Placeholder.fillAll [] source) = source := by
  decide +kernel

theorem render_amid {name value before after : Text} {params : Params} (hname : Name.isName name)
    (hvalue : params.get? name = some (.text value)) (hblank : Text.allBlank value = false)
    (hshield : Placeholder.shieldChar ∉ value) (hbefore : ∀ c ∈ "<#$".toList, c ∉ before)
    (hafter : ∀ c ∈ "<#$".toList, c ∉ after) :
    render (Placeholder.amid ⟨.quoted, name⟩ before after) params =
      Statement.tidy ((Placeholder.unshield before ++ [' ']) ++
        (Form.quoted.write value ++ ' ' :: Placeholder.unshield after)) := by
  have hopen : '<' ∉ Placeholder.amid ⟨.quoted, name⟩ before after := by
    have hplaceholder : '<' ∉ (⟨.quoted, name⟩ : Placeholder).toText :=
      Placeholder.not_mem_toText hname (by decide) (by decide)
    simp [Placeholder.amid, hbefore '<' (by decide), hafter '<' (by decide), hplaceholder]
  have hsigil : ∀ {t : Text}, (∀ c ∈ "<#$".toList, c ∉ t) → ∀ c ∈ t, Form.ofSigil? c = none := by
    intro t ht c hc
    refine Classical.byContradiction fun hne => ?_
    rcases Form.eq_or_eq_of_ofSigil? hne with rfl | rfl
    · exact ht _ (by decide) hc
    · exact ht _ (by decide) hc
  have hfill : Placeholder.fill params ⟨.quoted, name⟩ = Form.quoted.write value := by
    simp [Placeholder.fill, hvalue, Value.isBlank, hblank, Value.toText]
  have hwritten : Placeholder.shieldChar ∉ Form.quoted.write value := fun hm =>
    hshield (Form.mem_of_mem_write hm (by decide))
  rw [render_of_blockCount_eq_zero (Template.blockCount_parse_of_not_mem hopen),
    Placeholder.fillAll_amid hname (hsigil hbefore) (hsigil hafter), hfill,
    Placeholder.unshield_append, Placeholder.unshield_space_cons, Placeholder.unshield_append,
    Placeholder.unshield_eq_self hwritten, Placeholder.unshield_space_cons, List.append_assoc,
    List.singleton_append]

-- A numeral is found in the statement as it is. Any other value is found between quotes as tidying
-- leaves it, unless an if tag that begins in it ends behind the placeholder.
theorem infix_render_value (name value before after : Text) (params : Params)
    (hname : Name.isName name) (hvalue : params.get? name = some (.text value))
    (hblank : Text.allBlank value = false) (hshield : Placeholder.shieldChar ∉ value)
    (hbefore : ∀ c ∈ "<#$".toList, c ∉ before) (hafter : ∀ c ∈ "<#$".toList, c ∉ after) :
    let sql := render (Placeholder.amid ⟨.quoted, name⟩ before after) params
    (isNumeral value → value <:+: sql) ∧
      (isNumeral value = false →
        ('\x27' :: (Statement.tidyWithin value ++ ['\x27']) <:+: sql ↔
          Statement.ClosesIfTags value ∨ '>' ∉ after)) ∧
      (Statement.ifTag.all value = [] → '\t' ∉ value → ¬[' ', ' '] <:+: value →
        Statement.blankLines.all value = [] → Statement.tidyWithin value = value) := by
  intro sql
  have hsql : sql = _ := render_amid hname hvalue hblank hshield hbefore hafter
  have hclear : ∀ {t : Text}, '<' ∉ t → '<' ∉ Placeholder.unshield t :=
    fun ht hm => ht (List.mem_of_mem_filter hm)
  have hfront : '<' ∉ Placeholder.unshield before ++ [' '] := by
    simp [hclear (hbefore '<' (by decide))]
  have hback : '<' ∉ ' ' :: Placeholder.unshield after := by
    simp [hclear (hafter '<' (by decide))]
  refine ⟨fun hnum => ?_, fun hnum => ?_, Statement.tidyWithin_eq_self⟩
  · have hrun : ∀ c ∈ value, Text.isBlank c = false := by
      intro c hc
      rcases mem_of_isNumeral hnum hc with hdigit | rfl | rfl
      · exact Text.isBlank_of_isDigit hdigit
      · decide
      · decide
    have hangle : '<' ∉ value := fun hm => by
      have hdigit := mem_of_isNumeral hnum hm
      revert hdigit
      decide
    rw [hsql, Form.write, if_pos hnum]
    exact Statement.isInfix_tidy hfront hrun hangle hback
  · have hquoted : Form.quoted.write value ++ ' ' :: Placeholder.unshield after =
        '\x27' :: (value ++ '\x27' :: ' ' :: Placeholder.unshield after) := by
      simp [Form.write, hnum]
    have hend : '>' ∉ ' ' :: Placeholder.unshield after ↔ '>' ∉ after := by
      simp [Placeholder.unshield, Placeholder.shieldChar]
    rw [hsql, hquoted, Statement.isInfix_tidy_quoted_iff hfront hback, hend]

theorem infix_render_value_balance :
    let params : Params := [("m".toList, .text "-1.5".toList), ("n".toList, .text "a  <if b>c".toList)]
    "-1.5".toList <:+: render (Placeholder.amid ⟨.quoted, "m".toList⟩ "balance >".toList []) params ∧
      ('\x27' :: (Statement.tidyWithin "a  <if b>c".toList ++ ['\x27']) <:+:
          render (Placeholder.amid ⟨.quoted, "n".toList⟩ "owner =".toList "AND 1 > 0".toList) params ∧
        Statement.tidyWithin "a  <if b>c".toList = "a c".toList) := by
  intro params
  have hnumeral := infix_render_value "m".toList "-1.5".toList "balance >".toList [] params (by decide)
    rfl (by decide) (by decide) (by simp) (by simp)
  have hquoted := infix_render_value "n".toList "a  <if b>c".toList "owner =".toList
    "AND 1 > 0".toList params (by decide) rfl (by decide) (by decide) (by simp) (by simp)
  exact ⟨hnumeral.1 (by decide), (hquoted.2.1 (by decide)).mpr (.inl (by decide +kernel)),
    by decide +kernel⟩

-- Two spaces inside of a value become one.
theorem infix_render_value_squeezed :
    let params : Params := [("v".toList, .text "a  b".toList)]
    let sql := render (Placeholder.amid ⟨.quoted, "v".toList⟩ "x".toList "y".toList) params
    Name.isName "v".toList ∧ params.get? "v".toList = some (.text "a  b".toList) ∧
      isNumeral "a  b".toList = false ∧ sql = "x \x27a b\x27 y".toList ∧
      ¬"\x27a  b\x27".toList <:+: sql := by
  intro params sql
  have hsql : sql = "x \x27a b\x27 y".toList := by decide +kernel
  refine ⟨by decide, rfl, by decide, hsql, ?_⟩
  rw [hsql]
  decide

end SqlPreview
