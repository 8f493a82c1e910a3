import FormDesigner.Value.Equality
import FormDesigner.Text.Escaped

/-!
# Values in messages

`quoted?` is the form a value has inside a message or a container: text stands in quotes and every
value shows its kind. `plain?` differs only at the outside, where text stands for itself and dates
take their ISO form. Either is `none` when an integer inside has too many digits to be written.
-/

namespace FormDesigner

namespace Moment

/-- A span of time as whole days, seconds and microseconds. -/
def spanText (micros : Int) : String :=
  let days := micros.fdiv 86400000000
  let rest := (micros.fmod 86400000000).toNat
  let parts :=
    (if days = 0 then [] else ["days=" ++ toString days])
    ++ (if rest / 1000000 = 0 then [] else ["seconds=" ++ toString (rest / 1000000)])
    ++ (if rest % 1000000 = 0 then [] else ["microseconds=" ++ toString (rest % 1000000)])
  "datetime.timedelta(" ++ ", ".intercalate parts ++ ")"

def zoneText (offset : Int) : String :=
  if offset = 0 then "datetime.timezone.utc"
  else "datetime.timezone(" ++ spanText offset ++ ")"

def quotedText (t : Moment) : String :=
  let tail := if t.microsecond ≠ 0 then [t.second, t.microsecond]
    else if t.second ≠ 0 then [t.second] else []
  let parts := [t.date.year, t.date.month, t.date.day, t.hour, t.minute] ++ tail
  "datetime.datetime(" ++ ", ".intercalate (parts.map toString)
    ++ (match t.offset with
      | some o => ", tzinfo=" ++ zoneText o
      | none => "") ++ ")"

end Moment

def Date.quotedText (d : Date) : String :=
  "datetime.date(" ++ ", ".intercalate ([d.year, d.month, d.day].map toString) ++ ")"

namespace Value

mutual

def quoted? : Value → Option String
  | .null => some "None"
  | .bool b => some (if b then "True" else "False")
  | .int n => integerText? n
  | .float x => some x.text
  | .text s => some (Text.quoted s)
  | .list xs => do return "[" ++ ", ".intercalate (← quotedItems? xs) ++ "]"
  | .tuple xs => do
    return "(" ++ ", ".intercalate (← quotedItems? xs) ++ (if xs.length = 1 then ",)" else ")")
  | .set [] => some "set()"
  | .set (x :: xs) => do
    return "\x7b" ++ ", ".intercalate ((← quoted? x) :: (← quotedItems? xs)) ++ "\x7d"
  | .map es => do return "\x7b" ++ ", ".intercalate (← quotedEntries? es) ++ "\x7d"
  | .date d => some d.quotedText
  | .moment t => some t.quotedText
  | .bytes bs => some (Text.quotedOctets bs)

def quotedItems? : List Value → Option (List String)
  | [] => some []
  | x :: xs => do return (← quoted? x) :: (← quotedItems? xs)

def quotedEntries? : List (Value × Value) → Option (List String)
  | [] => some []
  | (k, v) :: es => do
    return ((← quoted? k) ++ ": " ++ (← quoted? v)) :: (← quotedEntries? es)

end

def plain? : Value → Option String
  | .text s => some s
  | .date d => some d.isoText
  | .moment t => some (t.isoTextWith " ")
  | v => v.quoted?

end Value

end FormDesigner
