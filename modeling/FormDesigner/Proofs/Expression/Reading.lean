import FormDesigner.Expression.Compile
import FormDesigner.Proofs.Expression.Complaint
import FormDesigner.Proofs.Number.Decimal
import FormDesigner.Proofs.Text.Trim
import FormDesigner.Proofs.Value.Domain
import Mathlib.Tactic.IntervalCases

/-!
# How reading an expression fails

A text is limited in its length, cut into tokens and parsed, and each of these steps may find
something to complain about. One thing is not a complaint about the text but a fault of the numbers
in it: an integer with too many digits. Apart from that a text is read or there is a message that
says what is wrong with it, since every token that a message shows can be shown.
-/

namespace FormDesigner

namespace Text

theorem digitValue?_lt {c : Char} {d : Nat} (h : digitValue? c = some d) : d < 10 := by
  unfold digitValue? at h
  split at h
  · rename_i hc
    obtain rfl := Option.some.inj h
    simp only [Char.isDigit, Bool.and_eq_true, decide_eq_true_eq] at hc
    have h9 : c.toNat ≤ 57 := hc.2
    change c.toNat - 48 < 10
    omega
  split at h
  · cases h
  · obtain ⟨start, hstart, rfl⟩ := Option.map_eq_some_iff.1 h
    have hrun := List.find?_some hstart
    simp only [Bool.and_eq_true, decide_eq_true_eq] at hrun
    omega

/-- A digit of any script becomes an ASCII digit. -/
theorem isDigit_asciiDigit {c : Char} (h : isDigit c = true) : (asciiDigit c).isDigit = true := by
  obtain ⟨d, hd⟩ := Option.isSome_iff_exists.1 h
  have hlt := digitValue?_lt hd
  rw [asciiDigit, hd]
  change (Char.ofNat (0x30 + d)).isDigit = true
  interval_cases d <;> rfl

end Text

namespace Expression

open Result

/-! ### Numbers -/

variable {cs : List Char}

theorem exponentSize_pos (h : exponentSize cs ≠ 0) :
    ∃ c rest, cs = c :: rest ∧ (c = 'e' ∨ c = 'E') := by
  cases cs with
  | nil => exact absurd rfl h
  | cons c rest =>
      refine ⟨c, rest, rfl, ?_⟩
      by_contra hc
      unfold exponentSize at h
      dsimp only at h
      rw [if_neg (by simpa using hc)] at h
      exact h rfl

/-- What stands right behind the beginning of a text is among more characters of it. -/
theorem mem_take_of_drop_eq_cons {c : Char} {rest : List Char} {k n : Nat}
    (h : cs.drop k = c :: rest) (hn : n ≠ 0) : c ∈ cs.take (k + n) := by
  obtain ⟨m, rfl⟩ := Nat.exists_eq_add_one_of_ne_zero hn
  rw [List.take_add, h, List.take_succ_cons]
  exact List.mem_append_right _ List.mem_cons_self

/-- A number is a run of digits, unless a point or an exponent stands right behind the run. -/
theorem numberSize_cases (cs : List Char) :
    numberSize cs = 0 ∨ numberSize cs = (cs.takeWhile Text.isDigit).length ∨
      ∃ c rest n, cs.drop (cs.takeWhile Text.isDigit).length = c :: rest ∧ n ≠ 0 ∧
        (c = '.' ∨ c = 'e' ∨ c = 'E') ∧ numberSize cs = (cs.takeWhile Text.isDigit).length + n := by
  unfold numberSize
  dsimp only
  generalize (cs.takeWhile Text.isDigit).length = whole
  split
  · rename_i rest hdot
    generalize (rest.takeWhile Text.isDigit).length = fraction
    split
    · exact .inl rfl
    · rename_i hmantissa
      have hpositive : whole + 1 + fraction ≠ 0 := by omega
      rw [if_neg hpositive]
      refine .inr (.inr ⟨'.', rest, 1 + fraction + exponentSize (cs.drop (whole + 1 + fraction)),
        hdot, ?_, .inl rfl, ?_⟩)
      · omega
      · rw [Nat.add_assoc whole, Nat.add_assoc whole]
  · split
    · exact .inl rfl
    · by_cases hexponent : exponentSize (cs.drop whole) = 0
      · rw [hexponent]
        exact .inr (.inl (Nat.add_zero whole))
      · obtain ⟨c, rest, hdrop, hc⟩ := exponentSize_pos hexponent
        exact .inr (.inr ⟨c, rest, _, hdrop, hexponent, .inr hc, rfl⟩)

/-- A number without a point and an exponent consists of digits. -/
theorem isDigit_of_mem_number
    (h : ∀ c ∈ cs.take (numberSize cs), ¬ (c = '.' ∨ c = 'e' ∨ c = 'E')) :
    ∀ c ∈ cs.take (numberSize cs), Text.isDigit c = true := by
  rcases numberSize_cases cs with hsize | hsize | ⟨c, rest, n, hdrop, hn, hc, hsize⟩
  · rw [hsize, List.take_zero]
    exact List.forall_mem_nil _
  · rw [hsize, ← List.prefix_iff_eq_take.1 (List.takeWhile_prefix _)]
    exact fun c hc => List.mem_takeWhile_imp hc
  · rw [hsize] at h
    exact absurd hc (h c (mem_take_of_drop_eq_cons hdrop hn))

/-- What may be wrong with a text of `n` characters: a character that starts no token, or an integer
of too many digits. -/
inductive IsTokenFault (n : Nat) : TokenFault → Prop
  | unexpected (c : Char) (position : Nat) : IsTokenFault n (.unexpected c position)
  | integerTooLong {digits : Nat} (long : maxIntegerDigits < digits) (fits : digits ≤ n) :
      IsTokenFault n (.integerTooLong digits)

theorem IsTokenFault.mono {m n : Nat} {f : TokenFault} (h : IsTokenFault m f) (hmn : m ≤ n) :
    IsTokenFault n f := by
  cases h with
  | unexpected c position => exact .unexpected c position
  | integerTooLong long fits => exact .integerTooLong long (Nat.le_trans fits hmn)

theorem numberOf_failsOnly (cs : List Char) :
    FailsOnly (IsTokenFault cs.length) (numberOf cs) := by
  unfold numberOf
  dsimp only
  split
  · exact failsOnly_ok _
  split
  · exact failsOnly_ok _
  · rename_i f hlong
    unfold Text.boundedDigits at hlong
    split at hlong
    · rename_i hdigits
      exact failsOnly_error (.integerTooLong hdigits (List.length_map _).le)
    · cases hlong

/-- Whatever is read as a number is not too long to be shown. -/
theorem shown?_number {n : Number} (h : numberOf (cs.take (numberSize cs)) = .ok n) :
    (Lexeme.number n).shown?.isSome = true := by
  unfold numberOf at h
  dsimp only at h
  split at h
  · obtain rfl := Except.ok.inj h
    rfl
  rename_i hinteger
  have hdigits : ∀ c ∈ cs.take (numberSize cs), Text.isDigit c = true :=
    isDigit_of_mem_number fun c hc hmark =>
      hinteger (List.any_eq_true.2 ⟨c, hc, by simpa [or_assoc] using hmark⟩)
  split at h
  · rename_i m hbounded
    obtain rfl := Except.ok.inj h
    refine Value.isSome_integerText?_of_lt (Text.boundedDigits_lt ?_ hbounded)
    rw [List.forall_mem_map]
    exact fun c hc => Text.isDigit_asciiDigit (hdigits c hc)
  · cases h

/-! ### Tokens -/

/-- A piece of a text can be shown in a message. -/
def Piece.IsShown : Piece → Prop
  | .blank _ => True
  | .lexeme l _ => l.shown?.isSome = true

theorem Piece.read_failsOnly (c : Char) (rest : List Char) (position : Nat) :
    FailsOnly (IsTokenFault (c :: rest).length) (Piece.read c rest position) := by
  unfold Piece.read
  dsimp only
  split
  · exact failsOnly_ok _
  split
  · refine FailsOnly.bind ?_ fun _ _ => failsOnly_ok _
    exact (numberOf_failsOnly _).mono fun f hf => hf.mono (List.length_take_le' _ _)
  split
  · split
    · exact failsOnly_ok _
    · exact failsOnly_error (.unexpected c position)
  split
  · exact failsOnly_ok _
  split
  · exact failsOnly_ok _
  · exact failsOnly_error (.unexpected c position)

theorem Piece.isShown_of_read {c : Char} {rest : List Char} {position : Nat} {piece : Piece}
    (h : Piece.read c rest position = .ok piece) : piece.IsShown := by
  unfold Piece.read at h
  dsimp only at h
  split at h
  · obtain rfl := Except.ok.inj h
    trivial
  split at h
  · obtain ⟨n, hn, h⟩ := bind_eq_ok.1 h
    obtain rfl := Except.ok.inj h
    exact shown?_number hn
  split at h
  · split at h
    · obtain rfl := Except.ok.inj h
      rfl
    · cases h
  split at h
  · obtain rfl := Except.ok.inj h
    unfold nameOf
    split <;> rfl
  split at h
  · obtain rfl := Except.ok.inj h
    rfl
  · cases h

theorem tokensFrom_nil (position : Nat) : tokensFrom position [] = .ok [] := by
  unfold tokensFrom
  rfl

theorem tokensFrom_cons (position : Nat) (c : Char) (rest : List Char) :
    tokensFrom position (c :: rest) =
      match Piece.read c rest position with
      | .error e => .error e
      | .ok piece =>
        match tokensFrom (position + max piece.size 1) (rest.drop (max piece.size 1 - 1)) with
        | .error e => .error e
        | .ok tokens =>
          match piece with
          | .blank _ => .ok tokens
          | .lexeme l n => .ok (⟨l, position, n⟩ :: tokens) := by
  exact (tokensFrom.eq_def position (c :: rest)).trans rfl

/-- Induction on the text, piece by piece. -/
theorem tokensFrom_failsOnly (position : Nat) (cs : List Char) :
    FailsOnly (IsTokenFault cs.length) (tokensFrom position cs) := by
  have hlater : ∀ {c : Char} {rest : List Char} {n : Nat} {f : TokenFault},
      IsTokenFault (rest.drop n).length f → IsTokenFault (c :: rest).length f := fun h =>
    h.mono (Nat.le_succ_of_le (List.drop_sublist _ _).length_le)
  induction position, cs using tokensFrom.induct with
  | case1 position =>
      rw [tokensFrom_nil]
      exact failsOnly_ok _
  | case2 position c rest f hread =>
      rw [tokensFrom_cons, hread]
      exact failsOnly_error (Piece.read_failsOnly c rest position f hread)
  | case3 position c rest piece hread size f hmore ih =>
      simp only [size] at hmore
      simp only [tokensFrom_cons, hread, hmore]
      exact failsOnly_error (hlater (ih f hmore))
  | case4 position c rest tokens n hread size hmore ih =>
      simp only [size] at hmore
      simp only [tokensFrom_cons, hread, hmore]
      exact failsOnly_ok _
  | case5 position c rest tokens l n hread size hmore ih =>
      simp only [size] at hmore
      simp only [tokensFrom_cons, hread, hmore]
      exact failsOnly_ok _

theorem shown?_of_tokensFrom (position : Nat) (cs : List Char) : ∀ tokens,
    tokensFrom position cs = .ok tokens → ∀ t ∈ tokens, t.lexeme.shown?.isSome = true := by
  induction position, cs using tokensFrom.induct with
  | case1 position =>
      intro tokens h
      rw [tokensFrom_nil] at h
      exact Except.ok.inj h ▸ List.forall_mem_nil _
  | case2 position c rest f hread =>
      intro tokens h
      rw [tokensFrom_cons, hread] at h
      cases h
  | case3 position c rest piece hread size f hmore ih =>
      intro tokens h
      simp only [size] at hmore
      simp only [tokensFrom_cons, hread, hmore] at h
      cases h
  | case4 position c rest later n hread size hmore ih =>
      intro tokens h
      simp only [size] at hmore
      simp only [tokensFrom_cons, hread, hmore] at h
      exact Except.ok.inj h ▸ ih later hmore
  | case5 position c rest later l n hread size hmore ih =>
      intro tokens h
      simp only [size] at hmore
      simp only [tokensFrom_cons, hread, hmore] at h
      have hshown : l.shown?.isSome = true := Piece.isShown_of_read hread
      exact Except.ok.inj h ▸ List.forall_mem_cons.2 ⟨hshown, ih later hmore⟩

theorem tokenize_failsOnly (source : String) :
    FailsOnly (IsTokenFault source.length) (tokenize source) :=
  tokensFrom_failsOnly 0 source.toList

/-- What is found where a parser complains can be shown. -/
theorem ComplainsAt.exists_message? {s : Setting} {tokens : List Token} {f : ParseFault}
    (h : ComplainsAt s tokens f) (htokens : ∀ t ∈ tokens, t.lexeme.shown?.isSome = true) :
    ∃ m, f.message? = some m := by
  obtain ⟨c, rest, hrest, rfl⟩ := h
  cases rest with
  | nil => exact ⟨_, rfl⟩
  | cons t rest =>
      obtain ⟨shown, hshown⟩ :=
        Option.isSome_iff_exists.1 (htokens t (hrest.subset List.mem_cons_self))
      unfold ParseFault.message? Setting.complain
      simp only [hshown]
      exact ⟨_, rfl⟩

/-! ### Texts -/

/-- Failures to read an expression, each with a message about its text. -/
def IsReadingFailure (f : Failure) : Prop :=
  ∃ message source position, f = .expression .reading message source position

/-- A text is within the limit on its length, but an integer in it has too many digits. -/
def HasOverlongInteger (limits : Limits) (source : String) (digits : Nat) : Prop :=
  (source.length : Int) ≤ limits.maxLength ∧ tokenize source = .error (.integerTooLong digits)

variable {limits : Limits} {source : String} {digits : Nat}

/-- A text within the limit is read if its tokens can be parsed. -/
theorem ofTrimmed_eq_ok {e : Expression} :
    ofTrimmed limits source = .ok e ↔ (source.length : Int) ≤ limits.maxLength ∧
      ∃ tokens, tokenize source = .ok tokens ∧
        parse ⟨limits.maxDepth, source.length⟩ tokens = .ok e := by
  unfold ofTrimmed
  split
  · rename_i hlength
    exact ⟨fun h => (by cases h), fun h => absurd hlength (Int.not_lt.2 h.1)⟩
  rename_i hlength
  split
  · rename_i f hf
    refine ⟨fun h => (by cases h), ?_⟩
    rintro ⟨-, tokens, htokens, -⟩
    cases hf.symm.trans htokens
  · rename_i tokens htokens
    have hparses : ∀ {P : List Token → Prop},
        (∃ ts, tokenize source = .ok ts ∧ P ts) ↔ P tokens := by
      intro P
      constructor
      · rintro ⟨ts, hts, h⟩
        exact Except.ok.inj (htokens.symm.trans hts) ▸ h
      · intro h
        exact ⟨tokens, htokens, h⟩
    rw [hparses, and_iff_right (Int.not_lt.1 hlength)]
    split
    · rename_i f hf
      rw [hf]
      exact ⟨fun h => (by cases h), fun h => (by cases h)⟩
    · rename_i e' he
      rw [he, Except.ok.injEq, Except.ok.injEq]

/-- Only a text of more characters than an integer may have digits can have such an integer. -/
theorem HasOverlongInteger.bounds (h : HasOverlongInteger limits source digits) :
    maxIntegerDigits < digits ∧ (digits : Int) ≤ limits.maxLength := by
  obtain ⟨hlength, hlong⟩ := h
  cases tokenize_failsOnly source _ hlong with
  | integerTooLong long fits => exact ⟨long, by omega⟩

/-- A text of nines. -/
def nines (n : Nat) : String := String.ofList (List.replicate n '9')

theorem trim_nines (n : Nat) : Text.trim (nines n) = nines n := by
  refine Text.trim_of_forall fun c hc => ?_
  rw [nines, String.toList_ofList] at hc
  rw [List.eq_of_mem_replicate hc]
  decide

/-- The whole run of nines is the number. -/
theorem numberSize_nines (n : Nat) : numberSize (List.replicate n '9') = n := by
  have hdigits : (List.replicate n '9').takeWhile Text.isDigit = List.replicate n '9' := by
    apply List.takeWhile_eq_self_iff.2
    intro c hc
    rw [List.eq_of_mem_replicate hc]
    decide
  have hend : (List.replicate n '9').drop n = [] := by
    rw [List.drop_replicate, Nat.sub_self, List.replicate_zero]
  unfold numberSize
  rw [hdigits, List.length_replicate]
  dsimp only
  rw [hend]
  dsimp only
  split
  · exact Eq.symm ‹n = 0›
  · rw [hend]
    rfl

theorem numberOf_nines {n : Nat} (h : maxIntegerDigits < n) :
    numberOf (List.replicate n '9') = .error (.integerTooLong n) := by
  have hascii : (List.replicate n '9').map Text.asciiDigit = List.replicate n '9' := by
    rw [List.map_replicate]
    rfl
  have hinteger :
      ((List.replicate n '9').any fun c => c = '.' || c = 'e' || c = 'E') = false := by
    rw [List.any_replicate, if_neg (Nat.ne_zero_of_lt h)]
    rfl
  have hbounded : Text.boundedDigits (List.replicate n '9') = .error (.tooLong n) := by
    unfold Text.boundedDigits
    rw [List.length_replicate, if_pos h]
  unfold numberOf
  rw [hascii, hinteger]
  simp only [hbounded, List.length_replicate]
  rfl

theorem tokenize_nines {n : Nat} (h : maxIntegerDigits < n) :
    tokenize (nines n) = .error (.integerTooLong n) := by
  obtain ⟨m, rfl⟩ := Nat.exists_eq_add_one.2 (Nat.zero_lt_of_lt h)
  have hread : Piece.read '9' (List.replicate m '9') 0 = .error (.integerTooLong (m + 1)) := by
    have hall : (List.replicate (m + 1) '9').take (m + 1) = List.replicate (m + 1) '9' := by
      rw [List.take_replicate, Nat.min_self]
    unfold Piece.read
    dsimp only
    rw [← List.replicate_succ, numberSize_nines, if_neg (by decide), if_pos (Nat.succ_pos m), hall,
      numberOf_nines h]
    rfl
  rw [tokenize, nines, String.toList_ofList, List.replicate_succ, tokensFrom_cons, hread]

theorem hasOverlongInteger_nines {n : Nat} (h : maxIntegerDigits < n)
    (hlimit : (n : Int) ≤ limits.maxLength) : HasOverlongInteger limits (nines n) n := by
  refine ⟨?_, tokenize_nines h⟩
  rw [nines, String.length_ofList, List.length_replicate]
  exact hlimit

theorem ofTrimmed_of_hasOverlongInteger (h : HasOverlongInteger limits source digits) :
    ofTrimmed limits source = .error (.integerDigitLimit digits) := by
  obtain ⟨hlength, hlong⟩ := h
  rw [ofTrimmed, if_neg (Int.not_lt.2 hlength), hlong]
  rfl

/-- A text within the limit on its length has tokens, or the first thing in it that is none is a
character; the tokens can all be shown. -/
theorem ofTrimmed_failsOnly (h : ∀ digits, ¬ HasOverlongInteger limits source digits) :
    FailsOnly IsReadingFailure (ofTrimmed limits source) := by
  unfold ofTrimmed
  split
  · exact failsOnly_error ⟨_, _, _, rfl⟩
  rename_i hlength
  split
  · rename_i f hf
    cases tokenize_failsOnly source f hf with
    | unexpected c position => exact failsOnly_error ⟨_, _, _, rfl⟩
    | integerTooLong long fits => exact absurd ⟨Int.not_lt.1 hlength, hf⟩ (h _)
  · rename_i tokens htokens
    split
    · rename_i f hf
      obtain ⟨m, hm⟩ :=
        (parse_complains _ tokens f hf).exists_message?
          (shown?_of_tokensFrom 0 source.toList tokens htokens)
      rw [ParseFault.toFailure, hm]
      exact failsOnly_error ⟨_, _, _, rfl⟩
    · exact failsOnly_ok _

theorem not_hasOverlongInteger_of_isAllBlank (h : Text.isAllBlank source = true) :
    ¬ HasOverlongInteger limits (Text.trim source) digits := by
  rw [Text.trim_of_isAllBlank h]
  rintro ⟨-, hlong⟩
  have hempty : tokenize "" = .ok [] := tokensFrom_nil 0
  rw [hempty] at hlong
  cases hlong

theorem compile_text (h : ¬ Text.isAllBlank source = true) :
    compile (.ok limits) (.text source) = (ofTrimmed limits (Text.trim source)).map some :=
  if_neg h

theorem compile_of_hasOverlongInteger
    (h : HasOverlongInteger limits (Text.trim source) digits) :
    compile (.ok limits) (.text source) = .error (.integerDigitLimit digits) := by
  have hblank : ¬ Text.isAllBlank source = true := fun hblank =>
    not_hasOverlongInteger_of_isAllBlank hblank h
  rw [compile_text hblank, ofTrimmed_of_hasOverlongInteger h]
  rfl

theorem compile_failsOnly
    (h : ∀ digits, ¬ HasOverlongInteger limits (Text.trim source) digits) :
    FailsOnly IsReadingFailure (compile (.ok limits) (.text source)) := by
  by_cases hblank : Text.isAllBlank source = true
  · have hcompile : compile (.ok limits) (.text source) = .ok none := if_pos hblank
    exact hcompile ▸ failsOnly_ok none
  · exact compile_text hblank ▸ (ofTrimmed_failsOnly h).map

end Expression

end FormDesigner
