import Mathlib
import FormDesigner.Expression.Evaluate
import FormDesigner.Proofs.Expression.Parsing
import FormDesigner.Proofs.Expression.Reading
import FormDesigner.Proofs.Text.Trim

/-!
# Reading a field by any key

Between quotes, with a backslash before each quote and each backslash in it, a key is one token,
whatever its characters are, and that token stands for the key. So every field can be read by its
key, also where the key is no name.
-/

namespace FormDesigner

namespace Expression

/-- Characters with a backslash before each quote and each backslash. -/
def escape : List Char → List Char
  | [] => []
  | c :: cs => if c = '\\' ∨ c = '\x22' then '\\' :: c :: escape cs else c :: escape cs

/-- The text that reads the field with a key. -/
def reference (key : String) : String :=
  "values[\x22" ++ String.ofList (escape key.toList) ++ "\x22]"

variable {c : Char} {cs rest : List Char}

/-! ### Between quotes -/

theorem quotedSize?_quote (quote : Char) (rest : List Char) :
    quotedSize? quote (quote :: rest) = some 1 := by
  cases rest with
  | nil => rw [quotedSize?, if_pos rfl]
  | cons d rest => rw [quotedSize?, if_pos rfl]

theorem quotedSize?_cons {quote : Char} (hquote : c ≠ quote) (hc : c ≠ '\\') :
    quotedSize? quote (c :: cs) = (quotedSize? quote cs).map (· + 1) := by
  cases cs with
  | nil => rw [quotedSize?.eq_2, if_neg hquote, quotedSize?, Option.map_none]
  | cons d rest => rw [quotedSize?, if_neg hquote, if_neg hc]

theorem quotedSize?_escaped {quote : Char} (hquote : '\\' ≠ quote) (hc : c ≠ '\n') :
    quotedSize? quote ('\\' :: c :: cs) = (quotedSize? quote cs).map (· + 2) := by
  rw [quotedSize?, if_neg hquote, if_pos rfl, if_neg hc]

/-- The quote that ends a key is the first one without a backslash before it. -/
theorem quotedSize?_escape (cs rest : List Char) :
    quotedSize? '\x22' (escape cs ++ '\x22' :: rest) = some ((escape cs).length + 1) := by
  induction cs with
  | nil => exact quotedSize?_quote _ rest
  | cons c cs ih =>
      rw [escape]
      by_cases hc : c = '\\' ∨ c = '\x22'
      · have hfeed : c ≠ '\n' := by
          rcases hc with rfl | rfl
          · decide
          · decide
        rw [if_pos hc, List.cons_append, List.cons_append, quotedSize?_escaped (by decide) hfeed,
          ih, Option.map_some, List.length_cons, List.length_cons]
      · obtain ⟨hback, hquote⟩ := not_or.1 hc
        rw [if_neg hc, List.cons_append, quotedSize?_cons hquote hback, ih, Option.map_some,
          List.length_cons]

theorem unescape_cons (hc : c ≠ '\\') : unescape (c :: cs) = c :: unescape cs := by
  cases cs with
  | nil => rw [unescape, unescape]
  | cons d rest => rw [unescape, if_neg hc]

theorem unescape_escape (cs : List Char) : unescape (escape cs) = cs := by
  induction cs with
  | nil => rfl
  | cons c cs ih =>
      rw [escape]
      by_cases hc : c = '\\' ∨ c = '\x22'
      · rw [if_pos hc, unescape, if_pos rfl, ih]
        rcases hc with rfl | rfl
        · rfl
        · rfl
      · rw [if_neg hc, unescape_cons (not_or.1 hc).1, ih]

/-! ### Tokens -/

theorem numberSize_of_head (hdigit : Text.isDigit c = false) (hpoint : c ≠ '.') :
    numberSize (c :: cs) = 0 := by
  have hwhole : (c :: cs).takeWhile Text.isDigit = [] := by simp [hdigit]
  unfold numberSize
  rw [hwhole]
  dsimp only [List.length_nil, List.drop_zero]
  split
  · rename_i h
    exact absurd (List.cons.inj h).1 hpoint
  · rfl

theorem read_values (rest : List Char) (position : Nat) :
    Piece.read 'v' ('a' :: 'l' :: 'u' :: 'e' :: 's' :: '[' :: rest) position =
      .ok (.lexeme (.name "values") 6) := by
  have hname : ('v' :: 'a' :: 'l' :: 'u' :: 'e' :: 's' :: '[' :: rest).takeWhile isNamePart =
      ['v', 'a', 'l', 'u', 'e', 's'] := rfl
  unfold Piece.read
  dsimp only
  rw [numberSize_of_head (by decide) (by decide), if_neg (by decide), if_neg (by decide),
    if_neg (by decide), if_pos (by decide), hname]
  rfl

theorem read_openBracket (rest : List Char) (position : Nat) :
    Piece.read '[' rest position = .ok (.lexeme (.symbol .openBracket) 1) := by
  have hsymbol : Symbol.atStart? ('[' :: rest) = some .openBracket := rfl
  unfold Piece.read
  dsimp only
  rw [numberSize_of_head (by decide) (by decide), if_neg (by decide), if_neg (by decide),
    if_neg (by decide), if_neg (by decide), hsymbol]
  rfl

theorem read_closeBracket (position : Nat) :
    Piece.read ']' [] position = .ok (.lexeme (.symbol .closeBracket) 1) := by cbv

/-- What stands between quotes is one token. -/
theorem read_escape (cs rest : List Char) (position : Nat) :
    Piece.read '\x22' (escape cs ++ '\x22' :: rest) position =
      .ok (.lexeme (.text (String.ofList cs)) ((escape cs).length + 2)) := by
  unfold Piece.read
  dsimp only
  rw [numberSize_of_head (by decide) (by decide), if_neg (by decide), if_neg (by decide),
    if_pos (by decide), quotedSize?_escape]
  dsimp only
  rw [Nat.add_sub_cancel, List.take_left, unescape_escape]

theorem toList_reference (key : String) :
    (reference key).toList =
      ['v', 'a', 'l', 'u', 'e', 's', '[', '\x22'] ++ (escape key.toList ++ ['\x22', ']']) := by
  simp [reference]

theorem tokensFrom_lexeme {c : Char} {rest : List Char} {position n : Nat} {l : Lexeme}
    {tokens : List Token} (hread : Piece.read c rest position = .ok (.lexeme l (n + 1)))
    (hrest : tokensFrom (position + (n + 1)) (rest.drop n) = .ok tokens) :
    tokensFrom position (c :: rest) = .ok (⟨l, position, n + 1⟩ :: tokens) := by
  have hsize : max (Piece.lexeme l (n + 1)).size 1 = n + 1 := Nat.max_eq_left (Nat.succ_pos n)
  rw [tokensFrom_cons, hread]
  dsimp only
  rw [hsize, Nat.add_sub_cancel, hrest]

theorem tokenize_reference (key : String) :
    tokenize (reference key) = .ok [⟨.name "values", 0, 6⟩, ⟨.symbol .openBracket, 6, 1⟩,
      ⟨.text key, 7, (escape key.toList).length + 2⟩,
      ⟨.symbol .closeBracket, 7 + ((escape key.toList).length + 2), 1⟩] := by
  have hkey := read_escape key.toList [']'] 7
  rw [String.ofList_toList] at hkey
  have hclose : tokensFrom (7 + ((escape key.toList).length + 2))
      ((escape key.toList ++ ['\x22', ']']).drop ((escape key.toList).length + 1)) =
        .ok [⟨.symbol .closeBracket, 7 + ((escape key.toList).length + 2), 1⟩] := by
    rw [← List.drop_drop, List.drop_left]
    exact tokensFrom_lexeme (read_closeBracket _) (tokensFrom_nil _)
  rw [tokenize, toList_reference]
  exact tokensFrom_lexeme (read_values _ 0)
    (tokensFrom_lexeme (read_openBracket _ 6) (tokensFrom_lexeme hkey hclose))

/-! ### Expressions -/

/-- A primary phrase is a whole expression. -/
def Phrase.whole (p : Phrase .primary) : Phrase .expr :=
  let term : Phrase (.chain .product) := .chain (.plain (c := .sign) p) .nil
  let comparison : Phrase (.chain .comparison) := .chain (.chain (c := .sum) term .nil) .nil
  .chain (.chain (c := .conjunction) (.plain (c := .negation) comparison) .nil) .nil

theorem Phrase.lexemes_whole (p : Phrase .primary) : p.whole.lexemes = p.lexemes := by
  simp only [whole, lexemes, Links.lexemes, List.append_nil]
  rfl

theorem Phrase.depth_whole (p : Phrase .primary) : p.whole.depth = p.depth := by
  simp only [whole, depth, Links.depth, Nat.max_zero]
  rfl

theorem Phrase.denotes_whole (p : Phrase .primary) : p.whole.denotes = p.denotes := by
  simp only [whole, denotes, Links.joins, List.foldl_nil]
  rfl

/-- However little nesting is allowed, a key in brackets is read. -/
theorem parse_entry {s : Setting} {tokens : List Token} {key : String}
    (h : tokens.map Token.lexeme =
      [.name "values", .symbol .openBracket, .text key, .symbol .closeBracket]) :
    parse s tokens = .ok (.field key) := by
  have hlexemes : tokens.map Token.lexeme = (Phrase.entry key).whole.lexemes := by
    rw [Phrase.lexemes_whole, h, Phrase.lexemes]
  have hdepth : (Phrase.entry key).whole.depth ≤ s.depthLimit.toNat := by
    rw [Phrase.depth_whole]
    exact Nat.zero_le _
  obtain ⟨_, hread⟩ := (Phrase.entry key).whole.read_to_end (s := s) hlexemes hdepth
  unfold parse
  rw [hread, Phrase.denotes_whole, Phrase.denotes]

theorem trim_reference (key : String) : Text.trim (reference key) = reference key := by
  have hhead : ∀ c ∈ (reference key).toList.head?, Text.isBlank c = false := by
    rw [toList_reference]
    simp [Text.isBlank]
  have hlast : ∀ c ∈ (reference key).toList.getLast?, Text.isBlank c = false := by
    rw [toList_reference, List.getLast?_append, List.getLast?_append]
    simp [Text.isBlank]
  have htrim := Text.trimChars_append hhead hlast (List.forall_mem_nil _)
  rw [List.append_nil] at htrim
  rw [Text.trim, htrim, String.ofList_toList]

theorem not_isAllBlank_reference (key : String) : ¬ Text.isAllBlank (reference key) = true := by
  rw [Text.isAllBlank, toList_reference]
  simp [Text.isBlank]

variable {limits : Limits} {key : String}

theorem compile_of_fits (fits : ((reference key).length : Int) ≤ limits.maxLength) :
    compile (.ok limits) (.text (reference key)) = .ok (some (.field key)) := by
  rw [compile_text (not_isAllBlank_reference key), trim_reference,
    ofTrimmed_eq_ok.2 ⟨fits, _, tokenize_reference key, parse_entry rfl⟩]
  rfl

/-- Whatever characters a key consists of, the text that puts it into quotes and brackets after
`values` reads the field with that key and nothing else, unless the text is longer than allowed; its
value is that of the key, or null where there is none. -/
theorem reference_reads_key (fits : ((reference key).length : Int) ≤ limits.maxLength) :
    compile (.ok limits) (.text (reference key)) = .ok (some (.field key)) ∧
      ∀ context, evaluateText (.ok limits) (.text (reference key)) context =
        .ok ((Entries.get? context (.text key)).getD .null) := by
  refine ⟨compile_of_fits fits, fun context => ?_⟩
  rw [evaluateText, compile_of_fits fits]
  rfl

/-- A key that ends with a backslash and holds quotes, a line feed and what looks like the end of
the text. -/
def oddKey : String := "a\x22]\n or \\\x22\\"

theorem reference_reads_oddKey :
    reference oddKey = "values[\x22a\\\x22]\n or \\\\\\\x22\\\\\x22]" ∧
      ((reference oddKey).length : Int) ≤ Limits.standard.maxLength ∧
      compile (.ok .standard) (.text (reference oddKey)) = .ok (some (.field oddKey)) ∧
      evaluateText (.ok .standard) (.text (reference oddKey)) [(.text oddKey, .int 7)] =
        .ok (.int 7) := by
  have fits : ((reference oddKey).length : Int) ≤ Limits.standard.maxLength := by decide
  obtain ⟨hcompile, hvalue⟩ := reference_reads_key fits
  refine ⟨by decide, fits, hcompile, ?_⟩
  rw [hvalue, Entries.get?_cons_self]
  rfl

end Expression

end FormDesigner
