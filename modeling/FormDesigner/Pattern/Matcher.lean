import FormDesigner.Pattern.Reader

/-!
# Matching regular expressions

A pattern is matched by trying its alternatives in order: each part is given what has to follow it,
and a part that can be matched in several ways tries the next one when what follows fails. A
repetition that took nothing the last time is not tried again, so every search ends.
-/

namespace FormDesigner

namespace Pattern

/-- Where a match has got to, and what the groups took on the way. -/
structure Spot where
  position : Nat
  groups : List (Nat × Nat × Nat)
deriving Inhabited

namespace Spot

/-- The range that a group took when it was last matched. -/
def group? (s : Spot) (g : Nat) : Option (Nat × Nat) :=
  (s.groups.find? fun e => e.1 = g).map (·.2)

def step (s : Spot) : Spot := { s with position := s.position + 1 }

def close (s : Spot) (g start : Nat) : Spot :=
  { s with groups := (g, start, s.position) :: s.groups.filter fun e => e.1 != g }

end Spot

/-- What has to follow a part of a pattern. -/
abbrev Follow := Spot → Option Spot

/-- Takes one character that passes a test. -/
def takeChar (text : Array Char) (p : Char → Bool) (s : Spot) (follow : Follow) : Option Spot :=
  match text[s.position]? with
  | some c => if p c then follow s.step else none
  | none => none

def isWordAt (text : Array Char) (ascii : Bool) (i : Nat) : Bool :=
  (text[i]?.map (CharClass.holds ascii .word)).getD false

def atBoundary (text : Array Char) (ascii : Bool) (i : Nat) : Bool :=
  (i != 0 && isWordAt text ascii (i - 1)) != isWordAt text ascii i

/-- Whether a position of the text satisfies an anchor. The end of the text counts as the end of a
line, and so does the place before a line feed that ends the text. -/
def Anchor.holds (text : Array Char) (i : Nat) : Anchor → Bool
  | .textStart => i == 0
  | .textEnd => i == text.size
  | .lineStart multiLine => i == 0 || (multiLine && text[i - 1]? == some '\n')
  | .lineEnd multiLine =>
    i == text.size || (text[i]? == some '\n' && (multiLine || i + 1 == text.size))
  | .boundary ascii => !text.isEmpty && atBoundary text ascii i
  | .noBoundary ascii => !text.isEmpty && !atBoundary text ascii i

/-- Repeats a body. `last` is where the previous repetition beyond the least number began; from
there, no other is tried. -/
def iterate (body : Spot → Follow → Option Spot) (lo : Nat) (hi : Option Nat) (lazy : Bool) :
    Nat → Nat → Option Nat → Spot → Follow → Option Spot
  | 0, _, _, _, _ => none
  | fuel + 1, count, last, s, follow =>
    if count < lo then body s fun s => iterate body lo hi lazy fuel (count + 1) last s follow
    else
      let more (_ : Unit) : Option Spot :=
        if hi.all (fun n => decide (count < n)) && last != some s.position then
          body s fun t => iterate body lo hi lazy fuel (count + 1) (some s.position) t follow
        else none
      if lazy then follow s <|> more () else more () <|> follow s

/-- Repeats a body as often as possible and forgets all other ways to match it. -/
def exhaust (body : Spot → Follow → Option Spot) (lo : Nat) (hi : Option Nat) :
    Nat → Nat → Option Nat → Spot → Option Spot
  | 0, _, _, _ => none
  | fuel + 1, count, last, s =>
    if count < lo then (body s some).bind (exhaust body lo hi fuel (count + 1) last)
    else if hi.all (fun n => decide (count < n)) && last != some s.position then
      match body s some with
      | some t => exhaust body lo hi fuel (count + 1) (some s.position) t
      | none => some s
    else some s

/-- Takes the characters from `i` up to `stop` once more. -/
def takeAgain (text : Array Char) (mode : Mode) (i : Nat) : Nat → Spot → Option Spot
  | 0, s => some s
  | n + 1, s =>
    match text[i]?, text[s.position]? with
    | some c, some d => if sameChar mode c d then takeAgain text mode (i + 1) n s.step else none
    | _, _ => none

mutual

/-- Matches a pattern from a spot of the text, with what has to follow it. -/
def run (text : Array Char) : Pattern → Spot → Follow → Option Spot
  | .char mode c, s, follow => takeChar text (literalHolds mode c) s follow
  | .any lineFeed, s, follow => takeChar text (fun c => lineFeed || c != '\n') s follow
  | .set mode negated items, s, follow =>
    takeChar text (fun c => setHolds mode items c != negated) s follow
  | .anchor a, s, follow => if a.holds text s.position then follow s else none
  | .seq ps, s, follow => runAll text ps s follow
  | .alt ps, s, follow => runAny text ps s follow
  | .group g p, s, follow => run text p s fun t => follow (t.close g s.position)
  | .sameAs mode g, s, follow =>
    match s.group? g with
    | some (start, stop) => (takeAgain text mode start (stop - start) s).bind follow
    | none => none
  | .given g yes no, s, follow =>
    if (s.group? g).isSome then run text yes s follow else run text no s follow
  | .loop lo hi greed p, s, follow =>
    let fuel := lo + text.size + 2
    match greed with
    | .greedy => iterate (run text p) lo hi false fuel 0 none s follow
    | .lazy => iterate (run text p) lo hi true fuel 0 none s follow
    | .possessive => (exhaust (run text p) lo hi fuel 0 none s).bind follow
  | .ahead negated p, s, follow =>
    match run text p s some with
    | some t => if negated then none else follow { t with position := s.position }
    | none => if negated then follow s else none
  | .behind negated width p, s, follow =>
    let found :=
      if width ≤ s.position then run text p { s with position := s.position - width } some else none
    match found with
    | some t => if negated then none else follow { t with position := s.position }
    | none => if negated then follow s else none
  | .atomic p, s, follow => (run text p s some).bind follow

/-- Matches patterns one after the other. -/
def runAll (text : Array Char) : List Pattern → Spot → Follow → Option Spot
  | [], s, follow => follow s
  | p :: ps, s, follow => run text p s fun t => runAll text ps t follow

/-- Matches the first of several patterns with which what follows can be matched. -/
def runAny (text : Array Char) : List Pattern → Spot → Follow → Option Spot
  | [], _, _ => none
  | p :: ps, s, follow => run text p s follow <|> runAny text ps s follow

end

/-- Whether a pattern matches some part of a text. -/
def occursIn (p : Pattern) (text : String) : Bool :=
  let cs := text.toList.toArray
  (List.range (cs.size + 1)).any fun i => (run cs p ⟨i, []⟩ some).isSome

end Pattern

end FormDesigner
