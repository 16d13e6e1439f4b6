import SqlPreview.Text.Basic

namespace SqlPreview.Block

inductive Kind where
  | conditional
  | loop
  | setClause
  | whereClause
deriving DecidableEq, Repr

-- The name under which the tags of a kind are written.
def Kind.tagName : Kind → Text
  | conditional => "if".toList
  | loop => "foreach".toList
  | setClause => "set".toList
  | whereClause => "where".toList

structure Kinds where
  conditional : Bool
  loop : Bool
  setClause : Bool
  whereClause : Bool
deriving DecidableEq, Repr

namespace Kinds

def none : Kinds := ⟨false, false, false, false⟩

def all : Kinds := ⟨true, true, true, true⟩

def only (kind : Kind) : Kinds where
  conditional := kind == .conditional
  loop := kind == .loop
  setClause := kind == .setClause
  whereClause := kind == .whereClause

def union (these others : Kinds) : Kinds where
  conditional := these.conditional || others.conditional
  loop := these.loop || others.loop
  setClause := these.setClause || others.setClause
  whereClause := these.whereClause || others.whereClause

def contains (kinds : Kinds) : Kind → Bool
  | .conditional => kinds.conditional
  | .loop => kinds.loop
  | .setClause => kinds.setClause
  | .whereClause => kinds.whereClause

theorem contains_only (kind other : Kind) : (only kind).contains other = (kind == other) := by
  cases kind <;> cases other <;> rfl

theorem contains_union (these others : Kinds) (kind : Kind) :
    (these.union others).contains kind = (these.contains kind || others.contains kind) := by
  cases kind <;> rfl

end Kinds

end SqlPreview.Block
