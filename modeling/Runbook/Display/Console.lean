import Runbook.Display.Notice

/-!
# Plain output

Lines of a console as plain text, for output without styles.

* `Line.plain`: what a line shows. A row of a table is one line, its cells between tabs.
-/

namespace Runbook.Display

open Runbook.Text

/-- The cells of a row on one line. -/
def rowText (cells : List String) : String := "\t".intercalate cells

/-- The lines of plain text that a line shows. -/
def Line.plain : Line → List String
  | .markup s => [plainMarkup s]
  | .table title columns rows => title :: rowText columns :: rows.map rowText
  | .panel title content => [plainMarkup title ++ ":", content]

/-- The plain text of notices. -/
def plainText (notices : List Notice) : List String :=
  notices.flatMap fun n =>
    match n.lines with
    | .ok lines => lines.flatMap (·.plain)
    | .error _ => []

end Runbook.Display
