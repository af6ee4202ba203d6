/-!
# Readers

A `Reader` takes characters from the front of the input, or fails. Loops are written with `collect`,
which repeats a step until the step says that it is done; each step that goes on takes at least one
character, so the length of the input bounds their number.
-/

namespace TypeInference.Toml

abbrev Reader (α : Type) := StateT (List Char) Option α

namespace Reader

variable {α : Type}

/-- The next character, left in the input. -/
def peek? : Reader (Option Char) := fun cs => some (cs.head?, cs)

/-- Take the next character. -/
def next : Reader Char
  | [] => none
  | c :: cs => some (c, cs)

/-- Take a given text from the front, or tell that it is not there. -/
def accept (text : String) : Reader Bool := fun cs =>
  if text.toList.isPrefixOf cs then some (true, cs.drop text.length) else some (false, cs)

/-- Take a given text from the front. -/
def expect (text : String) : Reader Unit := do guard (← accept text)

def takeWhile (p : Char → Bool) : Reader (List Char) := fun cs =>
  some (cs.takeWhile p, cs.dropWhile p)

/-- At most `fuel` rounds of a step, up to the round in which it has nothing more. -/
def collectUpTo (step : Reader (Option α)) : Nat → Reader (List α)
  | 0 => failure
  | fuel + 1 => do
    match ← step with
    | some a => return a :: (← collectUpTo step fuel)
    | none => return []

/-- What a step gives until it has nothing more. -/
def collect (step : Reader (Option α)) : Reader (List α) := do
  collectUpTo step ((← get).length + 1)

end Reader

end TypeInference.Toml
