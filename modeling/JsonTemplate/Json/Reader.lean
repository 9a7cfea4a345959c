import JsonTemplate.Json.Lexeme

namespace JsonTemplate.Json

namespace Reader

-- Arrays and objects within one another are read up to this depth.
def greatestDepth : Nat := 127

-- A container whose end has not been read yet. Items are in reverse.
inductive Frame where
  | array (items : List Json)
  | object (entries : Fields Json) (key : String)

-- What may come next.
inductive State where
  | value (frames : List Frame)
  | firstItem (frames : List Frame)
  | afterValue (frames : List Frame) (json : Json)
  | firstKey (frames : List Frame)
  | key (frames : List Frame) (entries : Fields Json)
  | colon (frames : List Frame) (entries : Fields Json) (key : String)

private def startValue (frames : List Frame) : Lexeme → Option State
  | .scalar json => some (.afterValue frames json)
  | .arrayOpen => if frames.length < greatestDepth then some (.firstItem frames) else none
  | .objectOpen => if frames.length < greatestDepth then some (.firstKey frames) else none
  | _ => none

private def startKey (frames : List Frame) (entries : Fields Json) : Lexeme → Option State
  | .scalar (.string key) => some (.colon frames entries key)
  | _ => none

def step : State → Lexeme → Option State
  | .value frames, lexeme => startValue frames lexeme
  | .firstItem frames, .arrayClose => some (.afterValue frames (.array []))
  | .firstItem frames, lexeme => startValue (.array [] :: frames) lexeme
  | .afterValue (.array items :: frames) json, .comma => some (.value (.array (json :: items) :: frames))
  | .afterValue (.array items :: frames) json, .arrayClose =>
      some (.afterValue frames (.array (json :: items).reverse))
  | .afterValue (.object entries key :: frames) json, .comma =>
      some (.key frames (entries.insert key json))
  | .afterValue (.object entries key :: frames) json, .objectClose =>
      some (.afterValue frames (.object (entries.insert key json)))
  | .afterValue _ _, _ => none
  | .firstKey frames, .objectClose => some (.afterValue frames (.object []))
  | .firstKey frames, lexeme => startKey frames [] lexeme
  | .key frames entries, lexeme => startKey frames entries lexeme
  | .colon frames entries key, .colon => some (.value (.object entries key :: frames))
  | .colon .., _ => none

def result? : State → Option Json
  | .afterValue [] json => some json
  | _ => none

end Reader

-- Reads one JSON value that fills the text. A key that is written again keeps its place and takes
-- the later value.
def read? (text : String) : Option Json := do
  let lexemes ← Lexeme.ofText? text.toList
  let state ← lexemes.foldlM Reader.step (.value [])
  Reader.result? state

end JsonTemplate.Json
