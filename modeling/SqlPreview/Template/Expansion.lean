import SqlPreview.Block.Condition
import SqlPreview.Block.SetClause
import SqlPreview.Block.WhereClause
import SqlPreview.Event
import SqlPreview.Statement.Tidy
import SqlPreview.Template

namespace SqlPreview

structure Rendered where
  text : Text
  events : List Event
deriving DecidableEq, Repr

namespace Rendered

def empty : Rendered := ⟨[], []⟩

def append (first second : Rendered) : Rendered :=
  ⟨first.text ++ second.text, first.events ++ second.events⟩

def map (f : Text → Text) (r : Rendered) : Rendered :=
  ⟨f r.text, r.events⟩

end Rendered

-- How an expansion goes about its work: the values, the kinds of block to expand, and whether the
-- bodies of loops are filled at once and shielded. Blocks of other kinds are written with their
-- tags.
structure Plan where
  params : Params
  kinds : Block.Kinds
  fillLoops : Bool

namespace Plan

-- The values that a loop body is filled with besides its element.
def outer (plan : Plan) : Option Params :=
  if plan.fillLoops then some plan.params else none

def elements (plan : Plan) (item : Text) : List Value :=
  Loop.elements (plan.params.get? item)

end Plan

namespace Node

mutual

def expand (plan : Plan) : Node → Rendered
  | text t => ⟨t, []⟩
  | block head openTag closeTag body =>
    let verbatim (inner : Rendered) : Rendered := inner.map (openTag ++ · ++ closeTag)
    match head with
    | .conditional test =>
      if plan.kinds.conditional then
        if Condition.holds plan.params test then expandAll plan body else .empty
      else verbatim (expandAll plan body)
    | .loop header =>
      match header.item, plan.kinds.loop with
      | some item, true =>
        let inner := expandAll plan body
        let elements := plan.elements item
        ⟨Loop.unroll header item inner.text elements plan.outer,
          inner.events ++ [.unrolling item elements.length]⟩
      | _, _ => verbatim (expandAll plan body)
    | .setClause =>
      if plan.kinds.setClause then (expandAll plan body).map SetClause.ofBody
      else verbatim (expandAll plan body)
    | .whereClause =>
      if plan.kinds.whereClause then (expandAll plan body).map WhereClause.ofBody
      else verbatim (expandAll plan body)

def expandAll (plan : Plan) : List Node → Rendered
  | [] => .empty
  | node :: rest => (expand plan node).append (expandAll plan rest)

end

end Node

namespace Template

-- Expands some kinds of block. Placeholders outside of loops are left alone.
def expand (params : Params) (kinds : Block.Kinds) (template : Template) : Text :=
  (Node.expandAll ⟨params, kinds, false⟩ template.nodes).text

-- Expands every block, fills every placeholder, and tidies up. Loop bodies are filled while they
-- are unrolled; what was filled in there is not searched again.
def rendered (params : Params) (template : Template) : Rendered :=
  let expanded := Node.expandAll ⟨params, .all, true⟩ template.nodes
  let sql := Statement.tidy (Placeholder.unshield (Placeholder.fillAll params expanded.text))
  ⟨sql, expanded.events ++
    [.rendered (Text.byteLength template.source) params.length template.blockCount
      template.issues.length sql]⟩

def render (params : Params) (template : Template) : Text :=
  (template.rendered params).text

def issueEvents (template : Template) : List Event :=
  template.issues.map .malformed

end Template

def render (source : Text) (params : Params) : Text :=
  (Template.parse source).render params

-- A template with the blocks of one kind expanded.
def expandOnly (kind : Block.Kind) (source : Text) (params : Params) : Text :=
  (Template.parse source).expand params (.only kind)

end SqlPreview
