import FormDesigner.Text.Character
import FormDesigner.Text.Letter
import FormDesigner.Text.Word

/-!
# Regular expressions

The tree of a regular expression. Options such as matching without regard to case are settled where
they apply, so each node is independent of its surroundings.

Two characters match without regard to case if their lower case is the same, or if their lower cases
share an upper case. The table lists the lower-case characters of the second kind.
-/

namespace FormDesigner

/-! ### Matching without regard to case -/

namespace Pattern

/-- Different lower-case characters with the same upper case. -/
def sharedUpperCase : List (List Nat) := [
  [0x69, 0x131], [0x73, 0x17f], [0xb5, 0x3bc], [0x345, 0x3b9, 0x1fbe], [0x390, 0x1fd3],
  [0x3b0, 0x1fe3], [0x3b2, 0x3d0], [0x3b5, 0x3f5], [0x3b8, 0x3d1], [0x3ba, 0x3f0], [0x3c0, 0x3d6],
  [0x3c1, 0x3f1], [0x3c2, 0x3c3], [0x3c6, 0x3d5], [0x432, 0x1c80], [0x434, 0x1c81], [0x43e, 0x1c82],
  [0x441, 0x1c83], [0x442, 0x1c84, 0x1c85], [0x44a, 0x1c86], [0x463, 0x1c87], [0x1c88, 0xa64b],
  [0x1e61, 0x1e9b], [0xfb05, 0xfb06]]

def asciiLower (c : Char) : Char := c.toLower

/-- The lower case by which characters are compared. -/
def foldLower (ascii : Bool) (c : Char) : Char := if ascii then asciiLower c else Text.lowerChar c

/-- The lower-case characters that match a lower-case character. -/
def lowerClass (ascii : Bool) (c : Char) : List Char :=
  if ascii then [c]
  else
    match sharedUpperCase.find? fun cs => cs.contains c.toNat with
    | some cs => cs.map Char.ofNat
    | none => [c]

/-- The characters that a case run takes to a given lower-case character. -/
def runSources (r : Text.CaseRun) (c : Char) : List Char :=
  let source := r.first + (c.toNat - r.image)
  if r.image ≤ c.toNat && source ≤ r.last && (source - r.first) % r.step == 0 then
    [Char.ofNat source]
  else []

/-- The characters whose lower case is a given character. -/
def withLower (ascii : Bool) (c : Char) : List Char :=
  let asciiUpper := if 'a' ≤ c && c ≤ 'z' then [c.toUpper] else []
  if ascii then c :: asciiUpper
  else
    let dotted := if c = 'i' then [Char.ofNat 0x130] else []
    (if Text.lowerChar c = c then [c] else []) ++ asciiUpper ++ dotted
      ++ Text.lowerRuns.flatMap fun r => runSources r c

/-- All characters that match a character without regard to case. -/
def caseVariants (ascii : Bool) (c : Char) : List Char :=
  (lowerClass ascii (foldLower ascii c)).flatMap (withLower ascii)

end Pattern

/-! ### Trees -/

namespace Pattern

/-- Options in force at some place of a pattern. -/
structure Mode where
  ignoreCase : Bool
  multiLine : Bool
  dotAll : Bool
  ascii : Bool
deriving DecidableEq, Repr

inductive CharClass where
  | digit | blank | word
deriving DecidableEq, Repr

inductive SetItem where
  | char (c : Char)
  | range (lo hi : Nat)
  | kind (c : CharClass) (negated : Bool)
deriving DecidableEq, Repr

inductive Anchor where
  | textStart | textEnd
  | lineStart (multiLine : Bool) | lineEnd (multiLine : Bool)
  | boundary (ascii : Bool) | noBoundary (ascii : Bool)
deriving DecidableEq, Repr

/-- Whether a repetition takes as much as it can, as little as it can, or as much as it can without
ever giving any back. -/
inductive Greed where
  | greedy | lazy | possessive
deriving DecidableEq, Repr

namespace CharClass

def holds (ascii : Bool) (k : CharClass) (c : Char) : Bool :=
  match k with
  | .digit => if ascii then c.isDigit else Text.isDigit c
  | .blank => if ascii then Text.isBlank c && c.toNat < 0x80 && !(0x1c ≤ c.toNat && c.toNat < 0x20)
    else Text.isBlank c
  | .word => if ascii then c.isAlphanum || c = '_' else Text.isWord c

end CharClass

namespace SetItem

/-- Whether an item of a set holds a character as it stands. -/
def holds (ascii : Bool) (c : Char) : SetItem → Bool
  | .char d => c = d
  | .range lo hi => lo ≤ c.toNat && c.toNat ≤ hi
  | .kind k negated => k.holds ascii c != negated

end SetItem

/-- Whether a set of items holds a character in a mode. -/
def setHolds (mode : Mode) (items : List SetItem) (c : Char) : Bool :=
  if mode.ignoreCase then
    let variants := caseVariants mode.ascii c
    let lower := foldLower mode.ascii c
    items.any fun
      | .kind k negated => SetItem.holds mode.ascii lower (.kind k negated)
      | item => variants.any fun v => item.holds mode.ascii v
  else items.any fun item => item.holds mode.ascii c

/-- Whether a character matches a literal one in a mode. -/
def literalHolds (mode : Mode) (c d : Char) : Bool := setHolds mode [.char c] d

/-- Whether a character repeats another one in a mode. -/
def sameChar (mode : Mode) (c d : Char) : Bool :=
  if mode.ignoreCase then foldLower mode.ascii c = foldLower mode.ascii d else c = d

end Pattern

inductive Pattern where
  | char (mode : Pattern.Mode) (c : Char)
  | any (lineFeed : Bool)
  | set (mode : Pattern.Mode) (negated : Bool) (items : List Pattern.SetItem)
  | anchor (a : Pattern.Anchor)
  | seq (parts : List Pattern)
  | alt (options : List Pattern)
  | group (index : Nat) (p : Pattern)
  | sameAs (mode : Pattern.Mode) (group : Nat)
  | given (group : Nat) (yes no : Pattern)
  | loop (min : Nat) (max : Option Nat) (greed : Pattern.Greed) (p : Pattern)
  | ahead (negated : Bool) (p : Pattern)
  | behind (negated : Bool) (width : Nat) (p : Pattern)
  | atomic (p : Pattern)
deriving Inhabited

end FormDesigner
