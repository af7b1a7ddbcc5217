/-!
# Patterns

Sets of texts, put together from characters, words, choice and repetition. A pattern is given by the
rests that it can leave of a text.
-/

namespace Nftables.Text

abbrev Pattern := List Char → List (List Char)

namespace Pattern

/-- One character with a property. -/
def one (p : Char → Bool) : Pattern
  | c :: cs => if p c then [cs] else []
  | [] => []

def char (c : Char) : Pattern :=
  one (· == c)

/-- Any number of characters with a property. -/
def many (p : Char → Bool) : Pattern
  | c :: cs => if p c then many p cs ++ [c :: cs] else [c :: cs]
  | [] => [[]]

def andThen (f g : Pattern) : Pattern :=
  fun cs => (f cs).flatMap g

def orElse (f g : Pattern) : Pattern :=
  fun cs => f cs ++ g cs

/-- The pattern or nothing. -/
def opt (f : Pattern) : Pattern :=
  fun cs => f cs ++ [cs]

/-- At least one character with a property. -/
def several (p : Char → Bool) : Pattern :=
  andThen (one p) (many p)

/-- The pattern `least` times, and up to `more` times again. -/
def times (f : Pattern) : Nat → Nat → Pattern
  | 0, 0 => fun cs => [cs]
  | 0, more + 1 => opt (andThen f (times f 0 more))
  | least + 1, more => andThen f (times f least more)

def inOrder : List Pattern → Pattern
  | [] => fun cs => [cs]
  | f :: fs => andThen f (inOrder fs)

def word (s : String) : Pattern :=
  inOrder (s.toList.map char)

def words (ws : List String) : Pattern :=
  fun cs => ws.flatMap (word · cs)

/-- Is a text in the set? A line feed at its end does not count. -/
def covers (f : Pattern) (cs : List Char) : Bool :=
  (f cs).any fun rest => rest = [] ∨ rest = ['\n']

end Pattern

end Nftables.Text
