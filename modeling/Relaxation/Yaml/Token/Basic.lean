import Relaxation.Yaml.Basic
import Relaxation.Yaml.Tag

/-!
# YAML tokens

The words of a document. The beginnings and ends of block collections, which only the columns of
the text show, and the keys, which only the colons after them show, are tokens of their own.
-/

namespace Relaxation.Yaml

inductive Token where
  | directive (d : Directive)
  | documentStart
  | documentEnd
  | blockSequenceStart
  | blockMappingStart
  | blockEnd
  | flowSequenceStart
  | flowSequenceEnd
  | flowMappingStart
  | flowMappingEnd
  | blockEntry
  | flowEntry
  | key
  | value
  | alias (name : String)
  | anchor (name : String)
  | tag (t : Tag)
  | scalar (style : ScalarStyle) (text : String)
  deriving Repr, DecidableEq, Inhabited

end Relaxation.Yaml
