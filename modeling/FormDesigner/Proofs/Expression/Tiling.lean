import FormDesigner.Proofs.Expression.Scanning

/-!
# Tokens tile a text

Each token starts where the blanks behind the one before it end, and takes the characters that it
would be read from alone. Where no token starts, everything before can be read, and no text from
there on is a token, however short. So neither the tokens nor the place of a fault depend on what
stands behind them.
-/

namespace FormDesigner

namespace Expression

open Result

variable {c : Char} {cs gap rest : List Char} {position n : Nat} {tokens : List Token}
  {source : String}

/-- The text of `n` characters at a position. -/
def slice (source : String) (position n : Nat) : String :=
  String.ofList ((source.toList.drop position).take n)

/-- Tokens and the blanks between them make up a text that stands at a position. Each token is the
one that its characters alone are read as. -/
inductive Tiling : Nat → List Char → List Token → Prop
  | done {position : Nat} {gap : List Char} (blank : ∀ c ∈ gap, Text.isBlank c = true) :
      Tiling position gap []
  | token {position : Nat} {gap word rest : List Char} {l : Lexeme} {tokens : List Token}
      (blank : ∀ c ∈ gap, Text.isBlank c = true)
      (alone : tokenize (String.ofList word) = .ok [⟨l, 0, word.length⟩])
      (more : Tiling (position + gap.length + word.length) rest tokens) :
      Tiling position (gap ++ word ++ rest) (⟨l, position + gap.length, word.length⟩ :: tokens)

/-- What a parser meets in a text, each where it stands: the tokens, and then the end. -/
def met (source : String) (tokens : List Token) : List (Option Lexeme × Nat) :=
  tokens.map (fun t => (some t.lexeme, t.start)) ++ [(none, source.length)]

/-! ### Piece by piece -/

/-- The tokens of a text that begins with a piece, given those behind the piece. -/
def Piece.before (position : Nat) (tokens : List Token) : Piece → List Token
  | .blank _ => tokens
  | .lexeme l n => ⟨l, position, n⟩ :: tokens

theorem tokensFrom_piece {piece : Piece} (h : Piece.Begins c rest piece) (position : Nat) :
    tokensFrom position (c :: rest) =
      (tokensFrom (position + piece.size) ((c :: rest).drop piece.size)).map
        (piece.before position) := by
  obtain ⟨hpos, -⟩ := h.size
  obtain ⟨n, hn⟩ := Nat.exists_eq_add_one_of_ne_zero hpos.ne'
  have hsize : max piece.size 1 = piece.size := Nat.max_eq_left hpos
  have hdrop : (c :: rest).drop piece.size = rest.drop (piece.size - 1) := by
    rw [hn, List.drop_succ_cons, Nat.add_sub_cancel]
  rw [tokensFrom_cons, h.read]
  dsimp only
  rw [hsize, hdrop]
  cases tokensFrom (position + piece.size) (rest.drop (piece.size - 1)) with
  | error f => rfl
  | ok tokens => cases piece <;> rfl

/-- Induction on a text, piece by piece, up to the end or to where no piece can be read. -/
theorem pieces_induction {motive : Nat → List Char → Prop} (nil : ∀ position, motive position [])
    (fault : ∀ position c rest f, Piece.read c rest position = .error f →
      motive position (c :: rest))
    (piece : ∀ position c rest piece, Piece.Begins c rest piece →
      motive (position + piece.size) ((c :: rest).drop piece.size) → motive position (c :: rest))
    (position : Nat) (cs : List Char) : motive position cs := by
  induction hn : cs.length using Nat.strong_induction_on generalizing position cs with
  | _ n ih =>
      cases cs with
      | nil => exact nil position
      | cons c rest =>
          cases hread : Piece.read c rest position with
          | error f => exact fault position c rest f hread
          | ok p =>
              have hbegins := Piece.begins_of_read hread
              refine piece position c rest p hbegins (ih _ ?_ _ _ rfl)
              have hpos := hbegins.size.1
              rw [List.length_drop, ← hn, List.length_cons]
              omega

/-- The characters that a token takes are read as that token where they stand alone. -/
theorem tokenize_take {l : Lexeme} (h : Piece.Begins c rest (.lexeme l n)) :
    tokenize (String.ofList ((c :: rest).take n)) = .ok [⟨l, 0, n⟩] := by
  obtain ⟨m, rfl⟩ := Nat.exists_eq_add_one_of_ne_zero h.size.1.ne'
  have halone : Piece.Begins c (rest.take m) (.lexeme l (m + 1)) := h.take (Nat.le_refl _)
  have hnothing : (c :: rest.take m).drop (m + 1) = [] := by
    rw [List.drop_succ_cons, List.drop_take, Nat.sub_self, List.take_zero]
  rw [tokenize, String.toList_ofList, List.take_succ_cons, tokensFrom_piece halone]
  dsimp only [Piece.size]
  rw [hnothing, tokensFrom_nil]
  rfl

namespace Tiling

/-- Blanks before a text are before its first token. -/
theorem blanks (hgap : ∀ c ∈ gap, Text.isBlank c = true)
    (h : Tiling (position + gap.length) rest tokens) : Tiling position (gap ++ rest) tokens := by
  cases h with
  | done blank => exact .done (List.forall_mem_append.2 ⟨hgap, blank⟩)
  | @token _ gap' word rest l tokens blank alone more =>
      have hstart : position + (gap ++ gap').length = position + gap.length + gap'.length := by
        rw [List.length_append, Nat.add_assoc]
      rw [← List.append_assoc, ← List.append_assoc, ← hstart]
      rw [← hstart] at more
      exact .token (List.forall_mem_append.2 ⟨hgap, blank⟩) alone more

/-- Tokens start one behind the other, and all before the end of the text. -/
theorem starts (h : Tiling position cs tokens) :
    (∀ t ∈ tokens, position ≤ t.start ∧ t.start < position + cs.length) ∧
      tokens.Pairwise (·.start < ·.start) := by
  induction h with
  | done => exact ⟨List.forall_mem_nil _, .nil⟩
  | @token position gap word rest l tokens _ alone _ ih =>
      have hword : 0 < word.length := by
        refine List.length_pos_iff.2 ?_
        rintro rfl
        rw [tokenize, String.toList_ofList, tokensFrom_nil] at alone
        cases alone
      obtain ⟨hbounds, hpairwise⟩ := ih
      rw [List.forall_mem_cons, List.pairwise_cons, List.length_append, List.length_append]
      refine ⟨⟨⟨Nat.le_add_right _ _, ?_⟩, fun t ht => ?_⟩, fun t ht => ?_, hpairwise⟩
      · dsimp only
        omega
      · have := hbounds t ht
        omega
      · have := hbounds t ht
        dsimp only
        omega

end Tiling

theorem tiling_of_tokensFrom (h : tokensFrom position cs = .ok tokens) :
    Tiling position cs tokens := by
  induction position, cs using pieces_induction generalizing tokens with
  | nil position =>
      rw [tokensFrom_nil] at h
      obtain rfl := Except.ok.inj h
      exact .done (List.forall_mem_nil _)
  | fault position c rest f hread =>
      rw [tokensFrom_cons, hread] at h
      cases h
  | piece position c rest piece hbegins ih =>
      rw [tokensFrom_piece hbegins] at h
      obtain ⟨later, hlater, rfl⟩ := map_eq_ok.1 h
      have hmore := ih hlater
      have hlength : ((c :: rest).take piece.size).length = piece.size :=
        List.length_take_of_le hbegins.size.2
      rw [← List.take_append_drop piece.size (c :: rest)]
      cases piece with
      | blank n =>
          refine Tiling.blanks (fun d hd => ?_) (hlength.symm ▸ hmore)
          cases hbegins
          rw [Piece.size, ← List.prefix_iff_eq_take.1 (List.takeWhile_prefix _)] at hd
          exact List.mem_takeWhile_imp hd
      | lexeme l n =>
          rw [Piece.size] at hlength hmore
          have htoken := @Tiling.token position [] ((c :: rest).take n) ((c :: rest).drop n) l later
            (List.forall_mem_nil _)
          rw [hlength] at htoken
          exact htoken (tokenize_take hbegins) hmore

/-- Where a text cannot be read, there is a first piece of it that cannot be. -/
theorem fault_of_tokensFrom {f : TokenFault} (h : tokensFrom position cs = .error f) :
    ∃ k c rest, cs.drop k = c :: rest ∧ Piece.read c rest (position + k) = .error f ∧
      ∃ tokens, tokensFrom position (cs.take k) = .ok tokens := by
  induction position, cs using pieces_induction with
  | nil position =>
      rw [tokensFrom_nil] at h
      cases h
  | fault position c rest g hread =>
      rw [tokensFrom_cons, hread] at h
      obtain rfl : g = f := Except.error.inj h
      exact ⟨0, c, rest, rfl, hread, [], tokensFrom_nil position⟩
  | piece position c rest piece hbegins ih =>
      rw [tokensFrom_piece hbegins] at h
      cases hmore : tokensFrom (position + piece.size) ((c :: rest).drop piece.size) with
      | ok tokens =>
          rw [hmore] at h
          cases h
      | error g =>
          rw [hmore] at h
          obtain rfl : g = f := Except.error.inj h
          obtain ⟨k, d, rest', hdrop, hread, tokens, htokens⟩ := ih hmore
          rw [List.drop_drop] at hdrop
          rw [Nat.add_assoc] at hread
          refine ⟨piece.size + k, d, rest', hdrop, hread, piece.before position tokens, ?_⟩
          -- The piece is read from what stands before the fault as well.
          obtain ⟨m, hm⟩ := Nat.exists_eq_add_one_of_ne_zero hbegins.size.1.ne'
          have hbefore : (c :: rest).take (piece.size + k) = c :: rest.take (m + k) := by
            rw [hm, Nat.add_right_comm, List.take_succ_cons]
          have hbegins' : Piece.Begins c (rest.take (m + k)) piece := hbegins.take (by omega)
          rw [hbefore, tokensFrom_piece hbegins', ← hbefore, List.drop_take, Nat.add_sub_cancel_left,
            htokens]
          rfl

/-! ### Texts -/

/-- Whatever a parser meets stands behind what it met before. -/
theorem Tiling.pairwise_met (h : Tiling 0 source.toList tokens) :
    (met source tokens).Pairwise (·.2 < ·.2) := by
  obtain ⟨hbounds, hpairwise⟩ := h.starts
  rw [met, List.pairwise_append, List.pairwise_map, List.forall_mem_map]
  refine ⟨hpairwise, List.pairwise_singleton _ _, fun t ht e he => ?_⟩
  obtain rfl := List.mem_singleton.1 he
  have hend := (hbounds t ht).2
  rwa [Nat.zero_add, String.length_toList] at hend

/-- Whatever is wrong with the tokens of a text is wrong at one of them or at the end of the text. -/
theorem mem_met_of_fault {depth : Int} {f : ParseFault}
    (h : parse ⟨depth, source.length⟩ tokens = .error f) :
    (f.found, f.position) ∈ met source tokens := by
  obtain ⟨complaint, later, hlater, rfl⟩ := parse_complains _ tokens f h
  cases later with
  | nil => exact List.mem_append_right _ (.head _)
  | cons t later =>
      have ht : t ∈ tokens := hlater.subset (.head _)
      exact List.mem_append_left _ (List.mem_map_of_mem ht)

theorem fault_of_tokenize {f : TokenFault} (h : tokenize source = .error f) :
    ∃ p c rest, source.toList.drop p = c :: rest ∧ Piece.read c rest p = .error f ∧
      ∃ tokens, tokenize (slice source 0 p) = .ok tokens := by
  obtain ⟨p, c, rest, hdrop, hread, tokens, hbefore⟩ := fault_of_tokensFrom h
  rw [Nat.zero_add] at hread
  refine ⟨p, c, rest, hdrop, hread, tokens, ?_⟩
  rwa [tokenize, slice, String.toList_ofList, List.drop_zero]

/-- Where nothing begins, no text is a token, however short it is cut. -/
theorem tokenize_take_ne_of_stuck (h : Piece.Stuck c rest) (n : Nat) (l : Lexeme) :
    tokenize (String.ofList ((c :: rest).take n)) ≠ .ok [⟨l, 0, n⟩] := by
  intro htoken
  rw [tokenize, String.toList_ofList] at htoken
  cases n with
  | zero =>
      rw [List.take_zero, tokensFrom_nil] at htoken
      cases htoken
  | succ n =>
      rw [List.take_succ_cons, tokensFrom_cons, (h.take n).read] at htoken
      cases htoken

/-- An integer with too many digits cannot be read. -/
theorem tokenize_of_long (n : Nat) (hn : maxIntegerDigits < n) :
    tokenize (String.ofList (List.replicate n '7')) = .error (.integerTooLong n) := by
  have hsize : numberSize (List.replicate n '7') = n := by
    rw [numberSize_of_digits, List.length_replicate]
    intro c hc
    rw [List.eq_of_mem_replicate hc]
    decide
  have hvalue : numberOf (List.replicate n '7') = .error (.integerTooLong n) := by
    have hmarks : (List.replicate n '7').any (fun c => c = '.' || c = 'e' || c = 'E') = false := by
      rw [List.any_eq_false]
      intro c hc
      rw [List.eq_of_mem_replicate hc]
      decide
    unfold numberOf
    dsimp only
    rw [hmarks, if_neg Bool.false_ne_true, Text.boundedDigits, List.length_map,
      List.length_replicate, if_pos hn]
  obtain ⟨m, rfl⟩ := Nat.exists_eq_add_one_of_ne_zero (Nat.ne_zero_of_lt hn)
  have hread : Piece.read '7' (List.replicate m '7') 0 = .error (.integerTooLong (m + 1)) := by
    unfold Piece.read
    dsimp only
    rw [← List.replicate_succ, hsize, if_neg (by decide), if_pos (Nat.succ_pos m),
      List.take_of_length_le (List.length_replicate).le, hvalue]
    rfl
  rw [tokenize, String.toList_ofList, List.replicate_succ, tokensFrom_cons, hread]

/-- The source of tokens is tiled by them, in order; all that a parser can complain about is one of
them or the end of the source. If instead a character starts no token, the source can be read up to
there, and no text from there on is a token. Otherwise an integer has too many digits. -/
theorem tokenize_tiles (source : String) :
    (∀ tokens, tokenize source = .ok tokens →
      Tiling 0 source.toList tokens ∧ (met source tokens).Pairwise (·.2 < ·.2) ∧
      ∀ depth f, parse ⟨depth, source.length⟩ tokens = .error f →
        (f.found, f.position) ∈ met source tokens) ∧
    (∀ c p, tokenize source = .error (.unexpected c p) →
      source.toList[p]? = some c ∧ (∃ tokens, tokenize (slice source 0 p) = .ok tokens) ∧
      ∀ n l, tokenize (slice source p n) ≠ .ok [⟨l, 0, n⟩]) ∧
    ∀ digits, tokenize source = .error (.integerTooLong digits) →
      ∃ p, (∃ tokens, tokenize (slice source 0 p) = .ok tokens) ∧ maxIntegerDigits < digits ∧
        (slice source p digits).length = digits ∧
        ∀ c ∈ (slice source p digits).toList, Text.isDigit c = true := by
  refine ⟨fun tokens h => ?_, fun c p h => ?_, fun digits h => ?_⟩
  · have htiling := tiling_of_tokensFrom h
    exact ⟨htiling, htiling.pairwise_met, fun _ _ hfault => mem_met_of_fault hfault⟩
  · obtain ⟨k, d, rest, hdrop, hread, hbefore⟩ := fault_of_tokenize h
    rcases Piece.fault_of_read hread with ⟨hfault, hstuck⟩ | ⟨hfault, -⟩
    · obtain ⟨rfl, rfl⟩ := TokenFault.unexpected.inj hfault
      refine ⟨?_, hbefore, fun n l => ?_⟩
      · rw [← List.head?_drop, hdrop, List.head?_cons]
      · rw [slice, hdrop]
        exact tokenize_take_ne_of_stuck hstuck n l
    · cases hfault
  · obtain ⟨p, d, rest, hdrop, hread, hbefore⟩ := fault_of_tokenize h
    rcases Piece.fault_of_read hread with ⟨hfault, -⟩ | ⟨hfault, hlong, hdigits⟩
    · cases hfault
    · obtain rfl := TokenFault.integerTooLong.inj hfault
      refine ⟨p, hbefore, hlong, ?_, ?_⟩
      · rw [slice, hdrop, String.length_ofList]
        exact List.length_take_of_le (isScan_numberSize.fits _)
      · rwa [slice, hdrop, String.toList_ofList]

/-- A text that is read, though not as an expression; one with a quote that is not closed, behind an
exponent that lacks its digits; and one with an integer that is too long. -/
theorem tokenize_tiles_samples :
    let source := "a===12 'it\\'s' "
    let tokens : List Token := [⟨.name "a", 0, 1⟩, ⟨.symbol .strictEq, 1, 3⟩,
      ⟨.number (.int 12), 4, 2⟩, ⟨.text "it's", 7, 7⟩]
    let fault : ParseFault := ⟨.unexpectedToken, some (.text "it's"), 7⟩
    let long := String.ofList (List.replicate (maxIntegerDigits + 1) '7')
    (tokenize source = .ok tokens ∧ Tiling 0 source.toList tokens ∧
      parse ⟨64, source.length⟩ tokens = .error fault ∧
      (fault.found, fault.position) ∈ met source tokens) ∧
    (tokenize "1e +'a" = .error (.unexpected '\'' 4) ∧
      (∃ tokens, tokenize (slice "1e +'a" 0 4) = .ok tokens) ∧
      ∀ n l, tokenize (slice "1e +'a" 4 n) ≠ .ok [⟨l, 0, n⟩]) ∧
    tokenize long = .error (.integerTooLong (maxIntegerDigits + 1)) ∧
      ∃ p, ∃ tokens, tokenize (slice long 0 p) = .ok tokens := by
  intro source tokens fault long
  have hread : tokenize source = .ok tokens := by decide +kernel
  have hparse : parse ⟨64, source.length⟩ tokens = .error fault := by cbv
  have hquote : tokenize "1e +'a" = .error (.unexpected '\'' 4) := by decide +kernel
  have hlong : tokenize long = .error (.integerTooLong (maxIntegerDigits + 1)) :=
    tokenize_of_long _ (Nat.lt_succ_self maxIntegerDigits)
  obtain ⟨htiling, -, hmet⟩ := (tokenize_tiles source).1 tokens hread
  obtain ⟨-, hbefore, hnone⟩ := (tokenize_tiles "1e +'a").2.1 _ _ hquote
  obtain ⟨p, hp, -⟩ := (tokenize_tiles long).2.2 _ hlong
  exact ⟨⟨hread, htiling, hparse, hmet 64 fault hparse⟩, ⟨hquote, hbefore, hnone⟩, hlong, p, hp⟩

end Expression

end FormDesigner
