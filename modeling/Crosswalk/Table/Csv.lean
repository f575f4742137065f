import Crosswalk.Failure

/-!
# Comma-separated records

A text of records: a comma ends a field, a line feed, a carriage return or both end a record. A
field in quotes may hold all of these, and a quote in it is written twice. A quote opens a quoted
part only where the field is still empty; elsewhere it stands for itself. At the end of the text a
record counts when a field or a comma has been read since the last record.
-/

namespace Crosswalk.Csv

/-! ### Reading -/

mutual

/-- Reads on outside quotes, with the characters of the field and the fields of the record read so
far, both in reverse. -/
def readPlain (field : List Char) (record : List (List Char)) :
    List Char → Except TableFault (List (List (List Char)))
  | [] =>
    if field.isEmpty && record.isEmpty then .ok []
    else .ok [(field.reverse :: record).reverse]
  | c :: cs =>
    if c = '"' && field.isEmpty then readQuoted field record cs
    else if c = ',' then readPlain [] (field.reverse :: record) cs
    else if c = '\r' && cs.head? == some '\n' then readPlain field record cs
    else if c = '\n' || c = '\r' then
      (readPlain [] [] cs).map ((field.reverse :: record).reverse :: ·)
    else readPlain (c :: field) record cs
termination_by structural cs => cs

def readQuoted (field : List Char) (record : List (List Char)) :
    List Char → Except TableFault (List (List (List Char)))
  | [] => .error .unterminatedField
  | '"' :: '"' :: cs => readQuoted ('"' :: field) record cs
  | c :: cs => if c = '"' then readPlain field record cs else readQuoted (c :: field) record cs
termination_by structural cs => cs

end

def read (s : String) : Except TableFault (List (List String)) :=
  (readPlain [] [] s.toList).map fun records => records.map fun record => record.map String.ofList

/-! ### Writing -/

def needsQuotes (cs : List Char) : Bool :=
  cs.any fun c => c = ',' || c = '"' || c = '\n' || c = '\r'

def doubleQuotes (cs : List Char) : List Char :=
  cs.flatMap fun c => if c = '"' then ['"', '"'] else [c]

def writeField (cs : List Char) : List Char :=
  if needsQuotes cs then '"' :: doubleQuotes cs ++ ['"'] else cs

/-- The fields of a record with commas between, and the end of the record. -/
def writeRecord (ending : List Char) : List (List Char) → List Char
  | [] => ending
  | [field] => writeField field ++ ending
  | field :: next :: fields => writeField field ++ ',' :: writeRecord ending (next :: fields)

/-- The text of some records, each with the given ending. -/
def writeWith (ending : List Char) (records : List (List String)) : String :=
  String.ofList (records.flatMap fun record => writeRecord ending (record.map String.toList))

/-- The text of some records, each ended by a line feed. -/
def write (records : List (List String)) : String :=
  writeWith ['\n'] records

end Crosswalk.Csv
