/-!
# Tokens

The smallest parts of a document that have a meaning of their own. Collections in block style begin
and end by indentation; their bounds are tokens all the same.
-/

namespace Nftables.Yaml

/-- What a tag is given by: a handle and a suffix, or a suffix alone. -/
structure TagName where
  handle : Option String
  suffix : String
deriving DecidableEq, Repr

inductive Token where
  /-- the major version that a document asks for -/
  | versionDirective (major : Nat)
  | tagDirective (handle tag : String)
  | unknownDirective
  | documentStart
  | documentEnd
  | streamEnd
  | blockSequenceStart
  | blockMappingStart
  | blockEnd
  | flowSequenceStart
  | flowSequenceEnd
  | flowMappingStart
  | flowMappingEnd
  | blockEntry
  | flowEntry
  | key
  | value
  | alias (name : String)
  | anchor (name : String)
  | tag (t : TagName)
  | scalar (text : String) (plain : Bool)
deriving DecidableEq, Repr

end Nftables.Yaml
