import SqlPreview.Block.Kind
import SqlPreview.Block.Loop

namespace SqlPreview.Block

inductive Head where
  | conditional (test : Text)
  | loop (header : Loop.Header)
  | setClause
  | whereClause
deriving DecidableEq, Repr

def Head.kind : Head → Kind
  | conditional _ => .conditional
  | loop _ => .loop
  | setClause => .setClause
  | whereClause => .whereClause

end SqlPreview.Block
