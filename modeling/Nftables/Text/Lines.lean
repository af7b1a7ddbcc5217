/-!
# Line ends

Files may end their lines with a line feed, a carriage return or both. What is read from a file ends
them with line feeds alone.
-/

namespace Nftables.Text

/-- A text with a line feed at the end of each line. -/
def lineFeeds : List Char → List Char
  | [] => []
  | '\r' :: '\n' :: cs => '\n' :: lineFeeds cs
  | c :: cs => (if c = '\r' then '\n' else c) :: lineFeeds cs

end Nftables.Text
