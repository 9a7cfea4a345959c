import JsonTemplate.Text.CaseTable

namespace JsonTemplate.Text

private def inRanges (ranges : List (Nat × Nat)) (c : Char) : Bool :=
  ranges.any fun range => range.1 ≤ c.toNat && c.toNat ≤ range.2

private def CaseRun.map? (run : CaseRun) (code : Nat) : Option Nat :=
  if run.first ≤ code && code ≤ run.last && (code - run.first) % run.step == 0 then
    some ((code : Int) + run.shift).toNat
  else none

private def mapChar (runs : List CaseRun) (expansions : List (Nat × List Nat)) (c : Char) : List Char :=
  match expansions.lookup c.toNat with
  | some codes => codes.map Char.ofNat
  | none => [((runs.findSome? (·.map? c.toNat)).map Char.ofNat).getD c]

-- Upper case, which may be longer than the text.
def toUpper (text : List Char) : List Char := text.flatMap (mapChar upperRuns upperExpansions)

-- Whether the first character that is not ignored for case has a case.
private def meetsCased (text : List Char) : Bool :=
  match text.dropWhile (inRanges ignorableRanges) with
  | c :: _ => inRanges casedRanges c
  | [] => false

-- The lower case of what follows some characters, given in reverse. A capital sigma is final, and
-- has a form of its own, when a letter is before it and none after it.
private def lowerAfter (before : List Char) : List Char → List Char
  | [] => []
  | c :: rest =>
      let lower :=
        if c = 'Σ' then if meetsCased before && !meetsCased rest then ['ς'] else ['σ']
        else mapChar lowerRuns lowerExpansions c
      lower ++ lowerAfter (c :: before) rest

def toLower (text : List Char) : List Char := lowerAfter [] text

end JsonTemplate.Text
