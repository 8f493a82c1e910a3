import FormDesigner.Proofs.Expression.Reference

/-!
# What a piece of a text depends on

How long a piece at the start of a text is can be told from the characters that it takes: whatever
stands behind them has no say in it. So a piece is read in the same way from every beginning of the
text that is long enough for it. Where nothing can be read, nothing can be read from any beginning of
the text either.
-/

namespace FormDesigner

namespace Expression

open Result

/-! ### Scans -/

/-- How many characters of a text are taken, where those behind them have no say in it. -/
structure IsScan (size : List Char → Nat) : Prop where
  fits : ∀ cs, size cs ≤ cs.length
  take : ∀ {cs m}, size cs ≤ m → size (cs.take m) = size cs

variable {c quote : Char} {cs rest : List Char} {m n position : Nat}

/-- The length of a run of characters in a beginning of a text. -/
theorem length_takeWhile_take (p : Char → Bool) (m : Nat) (cs : List Char) :
    ((cs.take m).takeWhile p).length = min m (cs.takeWhile p).length := by
  rw [← List.take_takeWhile, List.length_take]

namespace IsScan

theorem takeWhile (p : Char → Bool) : IsScan fun cs => (cs.takeWhile p).length where
  fits cs := (List.takeWhile_prefix p).length_le
  take {cs m} h := by
    rw [length_takeWhile_take]
    exact Nat.min_eq_right h

/-- One scan after another, which may depend on how much the first one took. -/
theorem andThen {f : List Char → Nat} {g : Nat → List Char → Nat} (hf : IsScan f)
    (hg : ∀ n, IsScan (g n)) : IsScan fun cs => f cs + g (f cs) (cs.drop (f cs)) where
  fits cs := by
    have hfirst := hf.fits cs
    have hsecond := (hg (f cs)).fits (cs.drop (f cs))
    rw [List.length_drop] at hsecond
    omega
  take {cs m} h := by
    have hfirst : f (cs.take m) = f cs := hf.take (Nat.le_of_add_right_le h)
    have hsecond : g (f cs) ((cs.drop (f cs)).take (m - f cs)) = g (f cs) (cs.drop (f cs)) :=
      (hg (f cs)).take (Nat.le_sub_of_add_le' h)
    rw [hfirst, List.drop_take, hsecond]

theorem zero : IsScan fun _ => 0 := ⟨fun _ => Nat.zero_le _, fun _ => rfl⟩

/-- A scan is one if it is one of texts that have a first character, with that character kept. -/
theorem of_cons {size : List Char → Nat} (nil : size [] = 0)
    (fits : ∀ c rest, size (c :: rest) ≤ rest.length + 1)
    (take : ∀ {c rest m}, size (c :: rest) ≤ m + 1 → size (c :: rest.take m) = size (c :: rest)) :
    IsScan size where
  fits cs := by
    cases cs with
    | nil => exact nil.le
    | cons c rest => exact fits c rest
  take {cs m} h := by
    cases cs with
    | nil => rw [List.take_nil]
    | cons c rest =>
        cases m with
        | zero => rw [Nat.le_zero.1 h, List.take_zero, nil]
        | succ m => exact take h

end IsScan

/-! ### Numbers -/

/-- How many characters the sign of an exponent takes. -/
def signSize : List Char → Nat
  | [] => 0
  | c :: _ => if c = '+' ∨ c = '-' then 1 else 0

theorem signSize_take (m : Nat) (cs : List Char) : signSize (cs.take m) = min m (signSize cs) := by
  cases m with
  | zero => rw [List.take_zero, signSize, Nat.zero_min]
  | succ m =>
      cases cs with
      | nil => rfl
      | cons c rest =>
          rw [List.take_succ_cons, signSize, signSize]
          split
          · exact (Nat.min_eq_right (Nat.le_add_left 1 m)).symm
          · rfl

theorem signSize_le_length (cs : List Char) : signSize cs ≤ cs.length := by
  have h := signSize_take cs.length cs
  rw [List.take_length] at h
  omega

/-- How many digits stand behind the sign of an exponent. -/
def powerSize (cs : List Char) : Nat := ((cs.drop (signSize cs)).takeWhile Text.isDigit).length

theorem powerSize_take (m : Nat) (cs : List Char) :
    powerSize (cs.take m) = min (m - signSize cs) (powerSize cs) := by
  have hrest : (cs.take m).drop (signSize (cs.take m)) =
      (cs.drop (signSize cs)).take (m - signSize cs) := by
    rw [signSize_take, List.drop_take]
    rcases Nat.le_total (signSize cs) m with h | h
    · rw [Nat.min_eq_right h]
    · rw [Nat.min_eq_left h, Nat.sub_self, Nat.sub_eq_zero_of_le h, List.take_zero, List.take_zero]
  rw [powerSize, hrest, length_takeWhile_take, powerSize]

theorem exponentSize_cons (c : Char) (rest : List Char) : exponentSize (c :: rest) =
    if (c = 'e' ∨ c = 'E') ∧ powerSize rest ≠ 0 then 1 + signSize rest + powerSize rest else 0 := by
  have hdigits : exponentSize (c :: rest) =
      if c = 'e' || c = 'E' then
        if powerSize rest = 0 then 0 else 1 + signSize rest + powerSize rest
      else 0 := by
    unfold exponentSize powerSize
    dsimp only
    congr 1
    split
    · rfl
    · rfl
    · rename_i hplus hminus
      have hsign : signSize rest = 0 := by
        cases rest with
        | nil => rfl
        | cons d tail =>
            refine if_neg ?_
            rintro (rfl | rfl)
            · exact hplus tail rfl
            · exact hminus tail rfl
      rw [hsign, List.drop_zero]
  rw [hdigits]
  by_cases hmark : c = 'e' ∨ c = 'E' <;> by_cases hpower : powerSize rest = 0 <;>
    simp [hmark, hpower]

theorem isScan_exponentSize : IsScan exponentSize := by
  refine .of_cons rfl (fun c rest => ?_) fun {c rest m} h => ?_
  · have hdigits : powerSize rest ≤ (rest.drop (signSize rest)).length :=
      (List.takeWhile_prefix _).length_le
    have hsign := signSize_le_length rest
    rw [List.length_drop] at hdigits
    rw [exponentSize_cons]
    split
    · omega
    · exact Nat.zero_le _
  · rw [exponentSize_cons] at h
    rw [exponentSize_cons, exponentSize_cons, powerSize_take, signSize_take]
    by_cases hmark : c = 'e' ∨ c = 'E'
    · simp only [hmark, true_and] at h ⊢
      split at h
      · rw [if_pos (by omega), if_pos (by omega)]
        omega
      · rw [if_neg (by omega), if_neg (by omega)]
    · rw [if_neg fun h => hmark h.1, if_neg fun h => hmark h.1]

/-- How many characters a point and the digits behind it take, given the number of digits before. -/
def pointSize (whole : Nat) : List Char → Nat
  | [] => 0
  | c :: rest =>
    let fraction := (rest.takeWhile Text.isDigit).length
    if c = '.' ∧ ¬ (whole = 0 ∧ fraction = 0) then 1 + fraction else 0

theorem isScan_pointSize (whole : Nat) : IsScan (pointSize whole) := by
  refine .of_cons rfl (fun c rest => ?_) fun {c rest m} h => ?_
  · have hdigits : (rest.takeWhile Text.isDigit).length ≤ rest.length :=
      (List.takeWhile_prefix _).length_le
    dsimp only [pointSize]
    split <;> omega
  · dsimp only [pointSize] at h ⊢
    rw [length_takeWhile_take]
    by_cases hpoint : c = '.'
    · simp only [hpoint, true_and] at h ⊢
      split at h
      · rw [if_pos (by omega), if_pos (by omega)]
        omega
      · rw [if_neg (by omega), if_neg (by omega)]
    · rw [if_neg fun h => hpoint h.1, if_neg fun h => hpoint h.1]

theorem numberSize_eq (cs : List Char) : numberSize cs =
    let whole := (cs.takeWhile Text.isDigit).length
    let mantissa := whole + pointSize whole (cs.drop whole)
    mantissa + if mantissa = 0 then 0 else exponentSize (cs.drop mantissa) := by
  unfold numberSize
  dsimp only
  generalize (cs.takeWhile Text.isDigit).length = whole
  have hadd : ∀ {m n : Nat}, m = n → (if m = 0 then 0 else m + exponentSize (cs.drop m)) =
      n + if n = 0 then 0 else exponentSize (cs.drop n) := by
    rintro m n rfl
    split
    · rename_i hzero
      rw [hzero]
    · rfl
  apply hadd
  split
  · rename_i rest hpoint
    rw [hpoint, pointSize]
    by_cases hnone : whole = 0 ∧ (rest.takeWhile Text.isDigit).length = 0
    · simp [hnone]
    · rw [if_neg (by simpa using hnone), if_pos ⟨rfl, hnone⟩, Nat.add_assoc]
  · rename_i hother
    have hpoint : pointSize whole (cs.drop whole) = 0 := by
      cases hdrop : cs.drop whole with
      | nil => rfl
      | cons c rest =>
          refine if_neg fun h => ?_
          obtain ⟨rfl, -⟩ := h
          exact hother rest hdrop
    rw [hpoint, Nat.add_zero]

theorem isScan_numberSize : IsScan numberSize := by
  have hmantissa := (IsScan.takeWhile Text.isDigit).andThen isScan_pointSize
  have hexponent (mantissa : Nat) :
      IsScan fun cs => if mantissa = 0 then 0 else exponentSize cs := by
    split
    · exact IsScan.zero
    · exact isScan_exponentSize
  have hnumber := hmantissa.andThen hexponent
  rwa [show numberSize = _ from funext numberSize_eq]

/-- Digits with nothing behind them are one number. -/
theorem numberSize_of_digits (h : ∀ c ∈ cs, Text.isDigit c = true) : numberSize cs = cs.length := by
  have hwhole : cs.takeWhile Text.isDigit = cs := List.takeWhile_eq_self_iff.2 h
  rw [numberSize_eq, hwhole]
  dsimp only
  rw [List.drop_length, pointSize, Nat.add_zero, List.drop_length, exponentSize, ite_self,
    Nat.add_zero]

theorem numberSize_take_eq_zero (h : numberSize (c :: rest) = 0) (m : Nat) :
    numberSize (c :: rest.take m) = 0 := by
  rw [← List.take_succ_cons, isScan_numberSize.take (h ▸ Nat.zero_le _), h]

/-! ### Quoted texts and symbols -/

theorem quotedSize?_ne_zero (quote : Char) (cs : List Char) : quotedSize? quote cs ≠ some 0 := by
  intro h
  unfold quotedSize? at h
  split at h
  · cases h
  · split at h <;> cases h
  split at h
  · cases h
  split at h
  · split at h
    · cases h
    · obtain ⟨n, -, hn⟩ := Option.map_eq_some_iff.1 h
      cases hn
  · obtain ⟨n, -, hn⟩ := Option.map_eq_some_iff.1 h
    cases hn

/-- A quoted text is closed within the characters that it takes. -/
theorem quotedSize?_eq_some_iff :
    quotedSize? quote cs = some n ↔ n ≤ cs.length ∧ quotedSize? quote (cs.take n) = some n := by
  have hzero {cs : List Char} : quotedSize? quote cs = some 0 ↔
      0 ≤ cs.length ∧ quotedSize? quote (cs.take 0) = some 0 :=
    ⟨fun h => absurd h (quotedSize?_ne_zero quote cs),
      fun h => absurd h.2 (quotedSize?_ne_zero quote _)⟩
  have hadd {o : Option Nat} {k n : Nat} : o.map (· + k) = some (n + k) ↔ o = some n := by
    cases o <;> simp
  induction cs using quotedSize?.induct quote generalizing n with
  | case1 => simp [quotedSize?]
  | case2 => cases n <;> simp [quotedSize?]
  | case3 c hc => cases n <;> simp [quotedSize?, hc]
  | case4 d rest =>
      cases n with
      | zero => exact hzero
      | succ n =>
          rw [List.take_succ_cons, quotedSize?_quote, quotedSize?_quote]
          simp
          omega
  | case5 rest hc =>
      rcases n with _ | _ | n
      · exact hzero
      · simp [quotedSize?, hc]
      · simp [quotedSize?, hc]
  | case6 d rest hfeed hc ih =>
      rcases n with _ | _ | n
      · exact hzero
      · simp [quotedSize?, hc]
      · rw [List.take_succ_cons, List.take_succ_cons, quotedSize?_escaped hc hfeed,
          quotedSize?_escaped hc hfeed, hadd, hadd, List.length_cons, List.length_cons,
          Nat.add_le_add_iff_right, Nat.add_le_add_iff_right]
        exact ih
  | case7 c d rest hc hback ih =>
      cases n with
      | zero => exact hzero
      | succ n =>
          rw [List.take_succ_cons, quotedSize?_cons hc hback, quotedSize?_cons hc hback, hadd, hadd,
            List.length_cons, Nat.add_le_add_iff_right]
          exact ih

theorem quotedSize?_take (h : quotedSize? quote cs = some n) (hm : n ≤ m) :
    quotedSize? quote (cs.take m) = some n := by
  obtain ⟨hlength, htake⟩ := quotedSize?_eq_some_iff.1 h
  rw [quotedSize?_eq_some_iff, List.length_take, List.take_take, Nat.min_eq_left hm]
  exact ⟨Nat.le_min.2 ⟨hm, hlength⟩, htake⟩

theorem quotedSize?_of_take (h : quotedSize? quote (cs.take m) = some n) :
    quotedSize? quote cs = some n := by
  obtain ⟨hlength, htake⟩ := quotedSize?_eq_some_iff.1 h
  obtain ⟨hm, hcs⟩ := Nat.le_min.1 (List.length_take ▸ hlength)
  rw [List.take_take, Nat.min_eq_left hm] at htake
  exact quotedSize?_eq_some_iff.2 ⟨hcs, htake⟩

/-- What is the first to meet a condition is the first to meet a stronger one, if it does. -/
theorem find?_of_imp {α : Type} {p q : α → Bool} {x : α} {xs : List α}
    (himp : ∀ y, q y = true → p y = true) (h : xs.find? p = some x) (hx : q x = true) :
    xs.find? q = some x := by
  obtain ⟨-, before, after, rfl, hbefore⟩ := List.find?_eq_some_iff_append.1 h
  refine List.find?_eq_some_iff_append.2 ⟨hx, before, after, rfl, fun y hy => ?_⟩
  have hp := hbefore y hy
  rw [Bool.not_eq_true'] at hp ⊢
  exact Bool.eq_false_iff.2 fun hq => Bool.eq_false_iff.1 hp (himp y hq)

theorem Symbol.isPrefix_of_atStart? {s : Symbol} (h : Symbol.atStart? cs = some s) :
    s.text.toList.isPrefixOf cs = true :=
  List.find?_some (p := fun s : Symbol => s.text.toList.isPrefixOf cs) h

theorem isPrefixOf_take_iff {symbol : List Char} :
    symbol.isPrefixOf (cs.take m) = true ↔ symbol.isPrefixOf cs = true ∧ symbol.length ≤ m := by
  rw [List.isPrefixOf_iff_prefix, List.isPrefixOf_iff_prefix, List.prefix_take_iff]

theorem Symbol.atStart?_size {s : Symbol} (h : Symbol.atStart? cs = some s) :
    0 < s.text.length ∧ s.text.length ≤ cs.length := by
  constructor
  · cases s <;> decide
  · exact (List.isPrefixOf_iff_prefix.1 (isPrefix_of_atStart? h)).length_le

theorem Symbol.atStart?_take {s : Symbol} (h : Symbol.atStart? cs = some s)
    (hm : s.text.length ≤ m) : Symbol.atStart? (cs.take m) = some s := by
  refine find?_of_imp (fun t ht => (isPrefixOf_take_iff.1 ht).1) h ?_
  exact isPrefixOf_take_iff.2 ⟨isPrefix_of_atStart? h, hm⟩

theorem Symbol.atStart?_take_eq_none (h : Symbol.atStart? cs = none) (m : Nat) :
    Symbol.atStart? (cs.take m) = none := by
  rw [Symbol.atStart?, List.find?_eq_none] at h ⊢
  exact fun s hs ht => h s hs (isPrefixOf_take_iff.1 ht).1

/-! ### Pieces -/

namespace Piece

variable {piece : Piece}

/-- What a text that begins with `c` may begin with. -/
inductive Begins (c : Char) (rest : List Char) : Piece → Prop
  | blank (isBlank : Text.isBlank c = true) :
      Begins c rest (.blank ((c :: rest).takeWhile Text.isBlank).length)
  | number {n : Number} (notBlank : ¬ Text.isBlank c = true) (isNumber : 0 < numberSize (c :: rest))
      (value : numberOf ((c :: rest).take (numberSize (c :: rest))) = .ok n) :
      Begins c rest (.lexeme (.number n) (numberSize (c :: rest)))
  | quoted {n : Nat} (notBlank : ¬ Text.isBlank c = true) (noNumber : numberSize (c :: rest) = 0)
      (isQuote : (c = '\x22' || c = '\x27') = true) (closed : quotedSize? c rest = some n) :
      Begins c rest (.lexeme (.text (String.ofList (unescape (rest.take (n - 1))))) (n + 1))
  | name (notBlank : ¬ Text.isBlank c = true) (noNumber : numberSize (c :: rest) = 0)
      (noQuote : ¬ (c = '\x22' || c = '\x27') = true) (isName : isNameStart c = true) :
      Begins c rest (.lexeme (nameOf (String.ofList ((c :: rest).takeWhile isNamePart)))
        ((c :: rest).takeWhile isNamePart).length)
  | symbol {s : Symbol} (notBlank : ¬ Text.isBlank c = true)
      (noNumber : numberSize (c :: rest) = 0) (noQuote : ¬ (c = '\x22' || c = '\x27') = true)
      (noName : ¬ isNameStart c = true) (atStart : Symbol.atStart? (c :: rest) = some s) :
      Begins c rest (.lexeme (.symbol s) s.text.length)

theorem begins_of_read (h : read c rest position = .ok piece) : Begins c rest piece := by
  unfold read at h
  dsimp only at h
  split at h
  · rename_i hblank
    obtain rfl := Except.ok.inj h
    exact .blank hblank
  rename_i hblank
  split at h
  · rename_i hnumber
    obtain ⟨n, hvalue, h⟩ := bind_eq_ok.1 h
    obtain rfl := Except.ok.inj h
    exact .number hblank hnumber hvalue
  rename_i hnumber
  have hzero := Nat.eq_zero_of_not_pos hnumber
  split at h
  · rename_i hquote
    split at h
    · rename_i n hclosed
      obtain rfl := Except.ok.inj h
      exact .quoted hblank hzero hquote hclosed
    · cases h
  rename_i hquote
  split at h
  · rename_i hname
    obtain rfl := Except.ok.inj h
    exact .name hblank hzero hquote hname
  rename_i hname
  split at h
  · rename_i s hstart
    obtain rfl := Except.ok.inj h
    exact .symbol hblank hzero hquote hname hstart
  · cases h

namespace Begins

theorem read (h : Begins c rest piece) (position : Nat) : read c rest position = .ok piece := by
  unfold Piece.read
  dsimp only
  cases h with
  | blank isBlank => rw [if_pos isBlank]
  | number notBlank isNumber value =>
      rw [if_neg notBlank, if_pos isNumber, value]
      rfl
  | quoted notBlank noNumber isQuote closed =>
      rw [if_neg notBlank, noNumber, if_neg (Nat.lt_irrefl 0), if_pos isQuote, closed]
  | name notBlank noNumber noQuote isName =>
      rw [if_neg notBlank, noNumber, if_neg (Nat.lt_irrefl 0), if_neg noQuote, if_pos isName]
  | symbol notBlank noNumber noQuote noName atStart =>
      rw [if_neg notBlank, noNumber, if_neg (Nat.lt_irrefl 0), if_neg noQuote, if_neg noName,
        atStart]

/-- A piece takes the first character at least, and no more than there is. -/
theorem size (h : Begins c rest piece) : 0 < piece.size ∧ piece.size ≤ rest.length + 1 := by
  have hrun {p : Char → Bool} (hc : p c = true) : 0 < ((c :: rest).takeWhile p).length ∧
      ((c :: rest).takeWhile p).length ≤ rest.length + 1 := by
    refine ⟨?_, (List.takeWhile_prefix p).length_le⟩
    rw [List.takeWhile_cons_of_pos hc]
    exact Nat.succ_pos _
  cases h with
  | blank isBlank => exact hrun isBlank
  | number _ isNumber _ => exact ⟨isNumber, isScan_numberSize.fits (c :: rest)⟩
  | quoted _ _ _ closed =>
      exact ⟨Nat.succ_pos _, Nat.succ_le_succ (quotedSize?_eq_some_iff.1 closed).1⟩
  | name _ _ _ isName => exact hrun (by rw [isNamePart, isName, Bool.true_or])
  | symbol _ _ _ _ atStart => exact Symbol.atStart?_size atStart

/-- The same piece begins each beginning of the text that is long enough for it. -/
theorem take (h : Begins c rest piece) (hm : piece.size ≤ m + 1) :
    Begins c (rest.take m) piece := by
  have hrun {p : Char → Bool} (hp : ((c :: rest).takeWhile p).length ≤ m + 1) :
      (c :: rest.take m).takeWhile p = (c :: rest).takeWhile p := by
    rw [← List.take_succ_cons, ← List.take_takeWhile, List.take_of_length_le hp]
  cases h with
  | blank isBlank =>
      have hblank : Begins c (rest.take m) _ := .blank isBlank
      rwa [hrun hm] at hblank
  | @number n notBlank isNumber value =>
      have hsize : numberSize (c :: rest.take m) = numberSize (c :: rest) := by
        rw [← List.take_succ_cons, isScan_numberSize.take hm]
      have htake : (c :: rest.take m).take (numberSize (c :: rest)) =
          (c :: rest).take (numberSize (c :: rest)) := by
        rw [← List.take_succ_cons, List.take_take]
        exact congrArg (List.take · _) (Nat.min_eq_left hm)
      have hvalue : numberOf ((c :: rest.take m).take (numberSize (c :: rest.take m))) = .ok n := by
        rw [hsize, htake]
        exact value
      have hnumber : Begins c (rest.take m) _ := .number notBlank (hsize.symm ▸ isNumber) hvalue
      rwa [hsize] at hnumber
  | @quoted n notBlank noNumber isQuote closed =>
      have hn : n ≤ m := Nat.le_of_succ_le_succ hm
      have hquoted := Begins.quoted notBlank (numberSize_take_eq_zero noNumber m) isQuote
        (quotedSize?_take closed hn)
      rwa [List.take_take, Nat.min_eq_left (Nat.le_trans (Nat.sub_le n 1) hn)] at hquoted
  | name notBlank noNumber noQuote isName =>
      have hname := Begins.name notBlank (numberSize_take_eq_zero noNumber m) noQuote isName
      rwa [hrun hm] at hname
  | symbol notBlank noNumber noQuote noName atStart =>
      refine .symbol notBlank (numberSize_take_eq_zero noNumber m) noQuote noName ?_
      rw [← List.take_succ_cons]
      exact Symbol.atStart?_take atStart hm

end Begins

/-- Nothing that a text may begin with. -/
inductive Stuck (c : Char) (rest : List Char) : Prop
  | unclosed (notBlank : ¬ Text.isBlank c = true) (noNumber : numberSize (c :: rest) = 0)
      (isQuote : (c = '\x22' || c = '\x27') = true) (notClosed : quotedSize? c rest = none)
  | unknown (notBlank : ¬ Text.isBlank c = true) (noNumber : numberSize (c :: rest) = 0)
      (noQuote : ¬ (c = '\x22' || c = '\x27') = true) (noName : ¬ isNameStart c = true)
      (noSymbol : Symbol.atStart? (c :: rest) = none)

/-- The only numbers that cannot be read are integers with too many digits. -/
theorem fault_of_numberOf {f : TokenFault} (h : numberOf cs = .error f) :
    f = .integerTooLong cs.length ∧ maxIntegerDigits < cs.length ∧
      ∀ c ∈ cs, ¬ (c = '.' ∨ c = 'e' ∨ c = 'E') := by
  unfold numberOf at h
  dsimp only at h
  split at h
  · cases h
  rename_i hinteger
  have hmarks : ∀ c ∈ cs, ¬ (c = '.' ∨ c = 'e' ∨ c = 'E') := fun c hc hmark =>
    hinteger (List.any_eq_true.2 ⟨c, hc, by simpa [or_assoc] using hmark⟩)
  split at h
  · cases h
  · rename_i hlong
    unfold Text.boundedDigits at hlong
    rw [List.length_map] at h hlong
    split at hlong
    · rename_i hdigits
      exact ⟨(Except.error.inj h).symm, hdigits, hmarks⟩
    · cases hlong

/-- Where a piece cannot be read, either nothing begins there or an integer that is too long. -/
theorem fault_of_read {f : TokenFault} (h : read c rest position = .error f) :
    (f = .unexpected c position ∧ Stuck c rest) ∨
      (f = .integerTooLong (numberSize (c :: rest)) ∧
        maxIntegerDigits < numberSize (c :: rest) ∧
        ∀ d ∈ (c :: rest).take (numberSize (c :: rest)), Text.isDigit d = true) := by
  unfold read at h
  dsimp only at h
  split at h
  · cases h
  rename_i hblank
  split at h
  · rename_i hnumber
    have hlength : ((c :: rest).take (numberSize (c :: rest))).length = numberSize (c :: rest) :=
      List.length_take_of_le (isScan_numberSize.fits _)
    cases hvalue : numberOf ((c :: rest).take (numberSize (c :: rest))) with
    | ok n =>
        rw [hvalue] at h
        cases h
    | error g =>
        rw [hvalue] at h
        obtain rfl : g = f := Except.error.inj h
        obtain ⟨hfault, hlong, hmarks⟩ := fault_of_numberOf hvalue
        rw [hlength] at hfault hlong
        exact .inr ⟨hfault, hlong, isDigit_of_mem_number hmarks⟩
  rename_i hnumber
  have hzero := Nat.eq_zero_of_not_pos hnumber
  split at h
  · rename_i hquote
    split at h
    · cases h
    · rename_i hclosed
      exact .inl ⟨(Except.error.inj h).symm, .unclosed hblank hzero hquote hclosed⟩
  rename_i hquote
  split at h
  · cases h
  rename_i hname
  split at h
  · cases h
  · rename_i hstart
    exact .inl ⟨(Except.error.inj h).symm, .unknown hblank hzero hquote hname hstart⟩

namespace Stuck

theorem read (h : Stuck c rest) (position : Nat) :
    read c rest position = .error (.unexpected c position) := by
  unfold Piece.read
  dsimp only
  cases h with
  | unclosed notBlank noNumber isQuote notClosed =>
      rw [if_neg notBlank, noNumber, if_neg (Nat.lt_irrefl 0), if_pos isQuote, notClosed]
  | unknown notBlank noNumber noQuote noName noSymbol =>
      rw [if_neg notBlank, noNumber, if_neg (Nat.lt_irrefl 0), if_neg noQuote, if_neg noName,
        noSymbol]

/-- Where a text begins with nothing, none of its beginnings begins with anything either. -/
theorem take (h : Stuck c rest) (m : Nat) : Stuck c (rest.take m) := by
  cases h with
  | unclosed notBlank noNumber isQuote notClosed =>
      refine .unclosed notBlank (numberSize_take_eq_zero noNumber m) isQuote ?_
      rw [Option.eq_none_iff_forall_ne_some] at notClosed ⊢
      exact fun n hn => notClosed n (quotedSize?_of_take hn)
  | unknown notBlank noNumber noQuote noName noSymbol =>
      refine .unknown notBlank (numberSize_take_eq_zero noNumber m) noQuote noName ?_
      rw [← List.take_succ_cons]
      exact Symbol.atStart?_take_eq_none noSymbol _

end Stuck

end Piece

end Expression

end FormDesigner
