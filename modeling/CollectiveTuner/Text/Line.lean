/-!
# Lines of a text

A line ends at a line feed, and a carriage return directly before that line feed belongs
to the line end. The text after the last line feed is a line of its own unless it is empty.
-/

namespace CollectiveTuner.Text

/-- The line without a carriage return at its end. -/
def chopReturn (line : List Char) : List Char :=
  if line.getLast? = some '\r' then line.dropLast else line

/-- The lines of a text. A carriage return at the end of an unterminated last line stays. -/
def lines (text : List Char) : List (List Char) :=
  let pieces := text.splitOnP (· == '\n')
  let last := pieces.getLast?.getD []
  pieces.dropLast.map chopReturn ++ if last.isEmpty then [] else [last]

end CollectiveTuner.Text
