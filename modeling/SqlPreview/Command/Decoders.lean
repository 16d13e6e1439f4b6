import SqlPreview.Command.Config
import SqlPreview.Document.Json.Reading
import SqlPreview.Document.Toml.Reading

namespace SqlPreview

-- The readers of documents that commands rely on. Of a document that cannot be read they say why.
structure Decoders where
  json : Text → Except Text (Map Value)
  toml : Text → Except Text (Map Value)
  config : Text → Except Text Config

inductive ConfigFault where
  | malformed (words : Text)
  | version (found : Text)
deriving DecidableEq, Repr

namespace Decoders

-- Readers that find no words for what they cannot read.
def wordless {α : Type} : Option α → Except Text α
  | some a => .ok a
  | none => .error []

def standard : Decoders where
  json t := wordless ((Json.params? t).map .ofPairs)
  toml t := wordless ((Toml.params? t).map .ofPairs)
  config t := wordless ((Toml.params? t).bind Config.ofFields?)

-- Reads a configuration. The version is looked at last.
def readConfig (decoders : Decoders) (t : Text) : Except ConfigFault Config :=
  match decoders.config t with
  | .error words => .error (.malformed words)
  | .ok config =>
    if config.version = Config.supported then .ok config else .error (.version config.version)

end Decoders

end SqlPreview
