import JsonTemplate.Expr.Error
import JsonTemplate.Text.Basic

namespace JsonTemplate

-- A line of what is printed about an error.
inductive ReportLine where
  | text (s : String)
  -- Where in a source the error is, the line and the column counted from one.
  | place (name : String) (line column : Nat)
deriving DecidableEq, Repr

namespace ReportLine

def print : ReportLine → String
  | text s => s
  | place name line column => "@ " ++ name ++ ":" ++ Nat.repr line ++ ":" ++ Nat.repr column

-- The lines that a text takes.
def ofText (s : String) : List ReportLine :=
  (Text.lines s.toList).map fun line => text (String.ofList line)

def ofError (message : String) : List ReportLine := ofText ("Error: " ++ message)

end ReportLine

namespace SyntaxError

-- What stands at the marked range: the message again, and what could have stood there.
def label (error : SyntaxError) : String :=
  if error.expected.isEmpty then error.message
  else error.message ++ "\nExpected: " ++ ", ".intercalate error.expected

-- A report counts the offsets of an error as characters of the source, so that a range behind wider
-- characters may lie past the end. The place is shown if the range starts in the source and its last
-- character is at most one past the end.
private def placeShown (error : SyntaxError) (source : List Char) : Bool :=
  !source.isEmpty && error.span.start ≤ source.length &&
    (error.span.stop ≤ error.span.start || error.span.stop - 1 ≤ source.length)

-- The label is shown if the range lies in the source.
private def labelShown (error : SyntaxError) (source : List Char) : Bool :=
  error.span.stop ≤ source.length

-- The lines of a report: the message, the place and the label. The label's first line is left out,
-- as it only repeats the message's.
def report (error : SyntaxError) (source name : String) : List ReportLine :=
  let chars := source.toList
  let headline := ReportLine.ofError error.message
  if error.placeShown chars then
    let (line, column) := Text.lineAndColumn chars error.span.start
    let label := if error.labelShown chars then (ReportLine.ofText error.label).drop 1 else []
    headline ++ .place name line column :: label
  else headline

end SyntaxError

end JsonTemplate
