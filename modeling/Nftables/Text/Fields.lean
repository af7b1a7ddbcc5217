/-!
# Fields of a text

Cutting a text at a separator and joining the fields again.
-/

namespace Nftables.Text

/-- The fields between separators; a text without a separator is one field. -/
def split (separator : Char) : List Char → List (List Char)
  | [] => [[]]
  | c :: cs =>
    if c = separator then [] :: split separator cs
    else match split separator cs with
      | [] => [[c]]
      | field :: fields => (c :: field) :: fields

/-- Texts with a separator between them. -/
def join (separator : List Char) : List (List Char) → List Char
  | [] => []
  | [cs] => cs
  | cs :: css => cs ++ separator ++ join separator css

/-- Does a text stand somewhere within another one? -/
def occursIn (part : List Char) : List Char → Bool
  | [] => part.isEmpty
  | c :: cs => part.isPrefixOf (c :: cs) || occursIn part cs

end Nftables.Text
