/-!
# Words of a command line

Words stand between blanks. Quotes and backslashes keep blanks in a word: between single quotes
everything stands for itself, between double quotes a backslash takes the meaning from a quote or
another backslash, and outside of quotes from any character.
-/

namespace Nftables.Text.Words

/-- Why a text cannot be cut into words. -/
inductive Fault where
  | unclosedQuote
  | nothingEscaped
deriving DecidableEq, Repr

def Fault.message : Fault → String
  | .unclosedQuote => "No closing quotation"
  | .nothingEscaped => "No escaped character"

/-- Between words, in a word outside of quotes, or in one after an opening quote. -/
inductive Place where
  | gap
  | word
  | quote (mark : Char)
deriving DecidableEq, Repr

def isGap (c : Char) : Bool :=
  c == ' ' || c == '\t' || c == '\r' || c == '\n'

def isQuote (c : Char) : Bool :=
  c == '"' || c == '\''

/-- Puts characters in front of the first word. -/
def extend (cs : List Char) : List (List Char) → List (List Char)
  | [] => [cs]
  | w :: ws => (cs ++ w) :: ws

/-- The characters that a backslash and the one after it stand for between quotes. -/
def escaped (mark c : Char) : List Char :=
  if c = mark ∨ c = '\\' then [c] else ['\\', c]

/-- Ends the word at a place, if it is in one. -/
def finish : Place → List (List Char) → List (List Char)
  | .word, ws => [] :: ws
  | _, ws => ws

/-- The words of the rest of a text. Within a word the first one is the rest of it. -/
def wordsFrom (place : Place) : List Char → Except Fault (List (List Char))
  | [] =>
    match place with
    | .quote _ => .error .unclosedQuote
    | place => .ok (finish place [])
  | c :: cs =>
    match place with
    | .quote mark =>
      if c = mark then wordsFrom .word cs
      else if c = '\\' ∧ mark = '"' then
        match cs with
        | [] => .error .nothingEscaped
        | d :: ds => extend (escaped mark d) <$> wordsFrom (.quote mark) ds
      else extend [c] <$> wordsFrom (.quote mark) cs
    | place =>
      if isGap c then finish place <$> wordsFrom .gap cs
      else if isQuote c then wordsFrom (.quote c) cs
      else if c = '\\' then
        match cs with
        | [] => .error .nothingEscaped
        | d :: ds => extend [d] <$> wordsFrom .word ds
      else extend [c] <$> wordsFrom .word cs

/-- The words of a text. -/
def split (text : List Char) : Except Fault (List (List Char)) :=
  wordsFrom .gap text

end Nftables.Text.Words
