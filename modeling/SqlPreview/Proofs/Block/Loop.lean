import SqlPreview.Block.Loop
import SqlPreview.Proofs.Parameter.Occurrence

namespace SqlPreview.Loop

open Placeholder (Absent assemble)

-- An element gives a value to a name: the name is the item itself, or a field of the element behind
-- the item and a point.
def Binds (item : Text) (element : Value) (name : Text) : Prop :=
  name = item ∨ ∃ field value, name = item ++ '.' :: field ∧ element.field? field = some value

section Bound

variable {item name field : Text} {element value : Value}

theorem field?_boundForm (field : Text) (element : Value) :
    (boundForm element).field? field = element.field? field := by
  cases element <;> rfl

theorem bound?_item (item : Text) (element : Value) :
    Placeholder.bound? item element item = some element :=
  if_pos rfl

theorem bound?_field (item field : Text) (element : Value) :
    Placeholder.bound? item element (item ++ '.' :: field) = element.field? field := by
  have hne : item ++ '.' :: field ≠ item := by simp
  have hafter : Text.after? (item ++ ['.']) (item ++ '.' :: field) = some field := by
    rw [Text.after?_eq_some_iff, List.append_assoc, List.singleton_append]
  rw [Placeholder.bound?, if_neg hne, hafter, Option.bind_some]

theorem Binds.exists_bound? (h : Binds item element name) :
    ∃ value, Placeholder.bound? item (boundForm element) name = some value := by
  rcases h with rfl | ⟨field, value, rfl, hf⟩
  · exact ⟨boundForm element, bound?_item name (boundForm element)⟩
  · exact ⟨value, by rw [bound?_field, field?_boundForm, hf]⟩

theorem binds_of_isSome_bound? (h : (Placeholder.bound? item (boundForm element) name).isSome) :
    Binds item element name := by
  rw [Placeholder.bound?] at h
  split at h
  · exact .inl ‹_›
  · obtain ⟨value, hv⟩ := Option.isSome_iff_exists.mp h
    obtain ⟨field, hafter, hf⟩ := Option.bind_eq_some_iff.mp hv
    refine .inr ⟨field, value, ?_, by rwa [field?_boundForm] at hf⟩
    rw [Text.after?_eq_some_iff.mp hafter, List.append_assoc, List.singleton_append]

instance (item : Text) (element : Value) (name : Text) : Decidable (Binds item element name) :=
  decidable_of_iff (Placeholder.bound? item (boundForm element) name).isSome
    ⟨binds_of_isSome_bound?, fun h => Option.isSome_iff_exists.mpr h.exists_bound?⟩

end Bound

-- The text that an element has in a body: records are joined as they are, all else is trimmed.
def elementText : Value → Text
  | .record fields => (Value.record fields).toText
  | element => Text.trim element.toText

theorem toText_boundForm (element : Value) : (boundForm element).toText = elementText element := by
  cases element <;> rfl

-- What an element leaves for a placeholder of the body, and the copy of the body that it is written into.
def inscription (item : Text) (element : Value) : Placeholder → Text :=
  Placeholder.bind item (boundForm element) none

def copy (item : Text) (element : Value) (body : Text) : Text :=
  Placeholder.bindElement item (boundForm element) none body

section Copy

variable {item field : Text} {element value : Value}

theorem inscription_item (item : Text) (element : Value) (form : Form) :
    inscription item element ⟨form, item⟩ = form.write (elementText element) := by
  simp only [inscription, Placeholder.bind, bound?_item, toText_boundForm]

theorem inscription_field (h : element.field? field = some value) (form : Form) :
    inscription item element ⟨form, item ++ '.' :: field⟩ = form.write value.toText := by
  simp only [inscription, Placeholder.bind, bound?_field, field?_boundForm, h]

theorem inscription_of_not_binds {p : Placeholder} (h : ¬Binds item element p.name) :
    inscription item element p = p.toText := by
  have hbound : Placeholder.bound? item (boundForm element) p.name = none :=
    Option.not_isSome_iff_eq_none.mp fun hs => h (binds_of_isSome_bound? hs)
  simp only [inscription, Placeholder.bind, hbound]

theorem copy_append_toText {p : Placeholder} (hp : Name.isName p.name) (a b : Text) :
    copy item element (a ++ (p.toText ++ b)) =
      copy item element a ++ (inscription item element p ++ copy item element b) :=
  Placeholder.replace_append_toText hp (inscription item element) a b

end Copy

-- An unrolled loop is the row of the trimmed copies. In the copy of an element, a placeholder with the
-- name of the item stands for the element, one with the name of a field behind it for the field, and any
-- other one for itself. The texts on both sides of a placeholder are copied each by itself, and where none
-- occurs nothing changes; so of a body only its placeholders are replaced.
theorem unroll_apart (header : Header) (item : Text) :
    (∀ body elements, unroll header item body elements none =
        header.opening ++
            header.separator.intercalate (elements.map fun element => Text.trim (copy item element body)) ++
          header.closing) ∧
      (∀ body, unroll header item body [] none = header.opening ++ header.closing) ∧
      ∀ element, ∃ write : Placeholder → Text,
        (∀ form, write ⟨form, item⟩ = form.write (elementText element)) ∧
        (∀ form field value, element.field? field = some value →
          write ⟨form, item ++ '.' :: field⟩ = form.write value.toText) ∧
        (∀ p, ¬Binds item element p.name → write p = p.toText) ∧
        (∀ p a b, Name.isName p.name →
          copy item element (a ++ (p.toText ++ b)) =
            copy item element a ++ (write p ++ copy item element b)) ∧
        (∀ t, Absent t → copy item element t = t) ∧
        ∀ body, ∃ parts last, (∀ part ∈ parts, Absent part.1 ∧ Name.isName part.2.name) ∧ Absent last ∧
          body = assemble Placeholder.toText parts last ∧
          copy item element body = assemble write parts last := by
  refine ⟨fun body elements => rfl, fun body => by simp [unroll, fragments], fun element => ?_⟩
  refine ⟨inscription item element, inscription_item item element, fun form field value => ?_,
    fun p => inscription_of_not_binds, fun p a b hp => copy_append_toText hp a b, fun t habsent => ?_,
    fun body => ?_⟩
  · exact fun hfield => inscription_field hfield form
  · exact Placeholder.replace_eq_self_of_absent habsent _
  · obtain ⟨parts, last, rfl, hlast, hparts⟩ := Placeholder.exists_assemble body
    exact ⟨parts, last, hparts, hlast, rfl, Placeholder.replace_assemble _ hlast hparts⟩

-- A record with a point in the name of a field, a text with blanks around it, and no value at all. A name
-- that goes on behind the item stays, and so does one of a field that the element does not have.
theorem unroll_apart_users :
    let item := "u".toList
    let header : Header := ⟨some item, "(".toList, ", ".toList, ")".toList⟩
    let user : Value := .record [("id".toList, .int 7), ("n.m".toList, .text " x ".toList)]
    let before := " $\x7bu.n.m\x7d".toList
    let behind := ":#\x7bu\x7d$\x7bux\x7d ".toList
    let id : Placeholder := ⟨.quoted, "u.id".toList⟩
    let gone : Placeholder := ⟨.plain, "u.gone".toList⟩
    user.field? "id".toList = some (.int 7) ∧ ¬Binds item user gone.name ∧
      copy item user (before ++ (id.toText ++ behind)) =
        copy item user before ++ ("7".toList ++ copy item user behind) ∧
      copy item user ("a#".toList ++ (gone.toText ++ "\x7bu".toList)) =
        "a#$\x7bu.gone\x7d\x7bu".toList ∧
      unroll header item (before ++ (id.toText ++ behind)) [user, .text " 5 ".toList, .null] none =
        "(x 7:'7, x '$\x7bux\x7d, ".toList ++
          ("$\x7bu.n.m\x7d#\x7bu.id\x7d:5$\x7bux\x7d, ".toList ++
            "$\x7bu.n.m\x7d#\x7bu.id\x7d:''$\x7bux\x7d)".toList) := by
  intro item header user before behind id gone
  obtain ⟨hunroll, -, hcopies⟩ := unroll_apart header item
  obtain ⟨write, -, hfield, hother, hsplit, habsent, -⟩ := hcopies user
  have hid : user.field? "id".toList = some (.int 7) := rfl
  have hgone : ¬Binds item user gone.name := by decide +kernel
  have hwritten : write id = "7".toList :=
    (hfield .quoted "id".toList (.int 7) hid).trans (by decide +kernel)
  have hfirst : copy item user "a#".toList = "a#".toList :=
    habsent _ (Placeholder.absent_of_all_eq_nil (by decide +kernel))
  have hlast : copy item user "\x7bu".toList = "\x7bu".toList :=
    habsent _ (Placeholder.absent_of_all_eq_nil (by decide +kernel))
  refine ⟨hid, hgone, ?_, ?_, (hunroll _ _).trans (by decide +kernel)⟩
  · rw [hsplit id before behind (by decide +kernel), hwritten]
  · rw [hsplit gone _ _ (by decide +kernel), hother gone hgone, hfirst, hlast]
    decide

end SqlPreview.Loop
