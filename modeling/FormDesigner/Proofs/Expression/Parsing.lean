import FormDesigner.Proofs.Expression.Phrase

/-!
# Parsing is deriving

The parser and the phrases of the grammar are compared in both directions. Whatever the parser of a
category reads is derived from the category, by induction on the tokens of a chain and on the levels
of nesting. Conversely a phrase is read where it ends, by induction on the derivation: the parser
goes as far as it can, so what follows a phrase must not carry it on. That is so of the operators
that bind more loosely than the category, of a closing parenthesis and of the end of the text.
-/

namespace FormDesigner.Expression

variable {s : Setting} {deeper : Option Level} {n : Nat}

/-! ### The parsers of the categories -/

/-- The parser that a level lends to the prefix operators of the level around it. -/
def Prefixing.part : Prefixing → Level → Parser Expression
  | .negation => Level.negation
  | .sign => Level.signed

/-- The parser of a category on a level. -/
def parserOf (s : Setting) (deeper : Option Level) : Category → Parser Expression
  | .primary => primary s deeper
  | .prefixed c => c.part (.over s deeper)
  | .chain .product => chain termOp? .binary (Level.over s deeper).signed
  | .chain .sum =>
    chain additiveOp? combineAdditive (chain termOp? .binary (Level.over s deeper).signed)
  | .chain .comparison =>
    chain comparator? .binary
      (chain additiveOp? combineAdditive (chain termOp? .binary (Level.over s deeper).signed))
  | .chain .conjunction => chain andOp? .logical (Level.over s deeper).negation
  | .chain .disjunction => (Level.over s deeper).expr

theorem combineAdditive_add : combineAdditive .add = plus := by
  funext left right
  cases left with
  | literal l => cases l <;> rfl
  | _ => rfl

theorem combineAdditive_sub : combineAdditive .sub = .binary .sub := by
  funext left right
  rfl

/-- The operators of a chain and what they denote, as the parser of the chain has them. -/
theorem chainFrom_eq_join {Op : Type} {op? : Lexeme → Option Op}
    {combine : Op → Expression → Expression → Expression}
    {join? : Lexeme → Option (Expression → Expression → Expression)}
    (hjoin : ∀ l, join? l = (op? l).map combine) (operand : Parser Expression) (left : Expression)
    (tokens : List Token) :
    chainFrom op? combine operand left tokens =
      chainFrom join? (fun join => join) operand left tokens := by
  induction left, tokens using chainFrom.induct op? combine operand with
  | case1 left => rw [chainFrom, chainFrom]
  | case2 left t tokens hop =>
      rw [chainFrom, chainFrom, hjoin, hop]
      rfl
  | case3 left t tokens op hop f hright =>
      rw [chainFrom, chainFrom, hjoin, hop]
      simp only [Option.map_some, hright]
  | case4 left t tokens op hop right after hright f hmore ih =>
      rw [chainFrom, chainFrom, hjoin, hop]
      simp only [Option.map_some, hright, ih]
  | case5 left t tokens op hop right after hright e last hmore ih =>
      rw [chainFrom, chainFrom, hjoin, hop]
      simp only [Option.map_some, hright, ih]

theorem chain_eq_join {Op : Type} {op? : Lexeme → Option Op}
    {combine : Op → Expression → Expression → Expression}
    {join? : Lexeme → Option (Expression → Expression → Expression)}
    (hjoin : ∀ l, join? l = (op? l).map combine) (operand : Parser Expression) :
    chain op? combine operand = chain join? (fun join => join) operand := by
  funext tokens
  unfold chain
  simp only [chainFrom_eq_join hjoin]

theorem parserOf_chain (c : Chain) :
    parserOf s deeper (.chain c) =
      chain c.join? (fun join => join) (parserOf s deeper c.operand) := by
  cases c with
  | disjunction =>
      refine chain_eq_join (fun l => ?_) _
      cases l with
      | symbol s => cases s <;> rfl
      | keyword k => cases k <;> rfl
      | _ => rfl
  | conjunction =>
      refine chain_eq_join (fun l => ?_) _
      cases l with
      | symbol s => cases s <;> rfl
      | keyword k => cases k <;> rfl
      | _ => rfl
  | comparison =>
      refine chain_eq_join (fun l => ?_) _
      cases l with
      | symbol s => cases s <;> rfl
      | _ => rfl
  | sum =>
      refine chain_eq_join (fun l => ?_) _
      cases l with
      | symbol s =>
          cases s with
          | plus => exact congrArg some combineAdditive_add.symm
          | minus => exact congrArg some combineAdditive_sub.symm
          | _ => rfl
      | _ => rfl
  | product =>
      refine chain_eq_join (fun l => ?_) _
      cases l with
      | symbol s => cases s <;> rfl
      | _ => rfl

theorem parserOf_prefixed (c : Prefixing) :
    parserOf s deeper (.prefixed c) =
      prefixed s deeper c.operator? c.part (parserOf s deeper c.base) := by
  cases c with
  | negation =>
      have hop : notOp? = Prefixing.negation.operator? := by
        funext l
        cases l with
        | symbol s => cases s <;> rfl
        | keyword k => cases k <;> rfl
        | _ => rfl
      rw [← hop]
      rfl
  | sign =>
      have hop : signOp? = Prefixing.sign.operator? := by
        funext l
        cases l with
        | symbol s => cases s <;> rfl
        | _ => rfl
      rw [← hop]
      rfl

/-! ### What is parsed is derived -/

/-- A phrase of a category derives the tokens up to the rest of them and denotes an expression. No
token of it lies under more than `n` constructs. -/
def Derives (c : Category) (n : Nat) (tokens : List Token) (e : Expression) (rest : List Token) :
    Prop :=
  ∃ p : Phrase c, tokens.map Token.lexeme = p.lexemes ++ rest.map Token.lexeme ∧ p.depth ≤ n ∧
    p.denotes = e

/-- Whatever a parser reads is derived from a category. -/
def ReadsOnly (c : Category) (n : Nat) (p : Parser Expression) : Prop :=
  ∀ tokens e rest, p tokens = .ok (e, rest) → Derives c n tokens e rest.1

/-- So it is with all parsers of a level. -/
structure Level.ReadsOnly (n : Nat) (level : Level) : Prop where
  expr : Expression.ReadsOnly .expr n level.expr
  prefixed : ∀ c : Prefixing, Expression.ReadsOnly (.prefixed c) n (c.part level)

/-- Induction on the tokens: each step of a chain adds a link. -/
theorem chainFrom_readsOnly {c : Chain} {operand : Parser Expression}
    (hoperand : ReadsOnly c.operand n operand) {left e : Expression} {tokens : List Token}
    {rest : { rest : List Token // rest.length ≤ tokens.length }}
    (h : chainFrom c.join? (fun join => join) operand left tokens = .ok (e, rest)) :
    ∃ links : Links c,
      tokens.map Token.lexeme = links.lexemes ++ rest.1.map Token.lexeme ∧ links.depth ≤ n ∧
        links.joins.foldl (fun left link => link.1 left link.2) left = e := by
  induction left, tokens using chainFrom.induct c.join? (fun join => join) operand with
  | case1 left =>
      rw [chainFrom] at h
      obtain ⟨rfl, rfl⟩ := Prod.mk.inj (Except.ok.inj h)
      exact ⟨.nil, rfl, Nat.zero_le n, rfl⟩
  | case2 left t tokens hop =>
      rw [chainFrom, hop] at h
      obtain ⟨rfl, rfl⟩ := Prod.mk.inj (Except.ok.inj h)
      exact ⟨.nil, rfl, Nat.zero_le n, rfl⟩
  | case3 left t tokens join hop f hright =>
      rw [chainFrom, hop] at h
      simp only [hright] at h
      cases h
  | case4 left t tokens join hop right after hright f hmore ih =>
      rw [chainFrom, hop] at h
      simp only [hright, hmore] at h
      cases h
  | case5 left t tokens join hop right after hright e' last hmore ih =>
      rw [chainFrom, hop] at h
      simp only [hright, hmore] at h
      obtain ⟨rfl, rfl⟩ := Prod.mk.inj (Except.ok.inj h)
      obtain ⟨p, hp, hdepth, rfl⟩ := hoperand _ _ _ hright
      obtain ⟨links, hlinks, hlinksDepth, rfl⟩ := ih hmore
      refine ⟨.cons t.lexeme join hop p links, ?_, ?_, rfl⟩
      · rw [List.map_cons, hp, hlinks, Links.lexemes, List.cons_append, List.append_assoc]
      · exact Nat.max_le.2 ⟨hdepth, hlinksDepth⟩

theorem chain_readsOnly {c : Chain} {operand : Parser Expression}
    (hoperand : ReadsOnly c.operand n operand) :
    ReadsOnly (.chain c) n (chain c.join? (fun join => join) operand) := by
  intro tokens e rest h
  unfold chain at h
  split at h
  · cases h
  · rename_i left after hleft
    split at h
    · cases h
    · rename_i e' last hmore
      obtain ⟨rfl, rfl⟩ := Prod.mk.inj (Except.ok.inj h)
      obtain ⟨p, hp, hdepth, rfl⟩ := hoperand _ _ _ hleft
      obtain ⟨links, hlinks, hlinksDepth, rfl⟩ := chainFrom_readsOnly hoperand hmore
      refine ⟨.chain p links, ?_, Nat.max_le.2 ⟨hdepth, hlinksDepth⟩, rfl⟩
      rw [hp, hlinks, Phrase.lexemes, List.append_assoc]

/-- What stands inside a construct is read by the parsers of the next level. -/
theorem enter_eq_ok {part : Level → Parser Expression} {tokens : List Token}
    {r : Expression × Shorter tokens} :
    enter s deeper part tokens = .ok r ↔
      ∃ level, deeper = some level ∧ part level tokens = .ok r := by
  unfold enter
  cases deeper with
  | none => simp
  | some level => simp

theorem prefixed_readsOnly {c : Prefixing} {otherwise : Parser Expression}
    (hdeeper : ∀ level, deeper = some level → ∃ m, n = m + 1 ∧ level.ReadsOnly m)
    (hotherwise : ReadsOnly c.base n otherwise) :
    ReadsOnly (.prefixed c) n (prefixed s deeper c.operator? c.part otherwise) := by
  have hplain : ∀ {tokens e rest}, Derives c.base n tokens e rest →
      Derives (.prefixed c) n tokens e rest := fun ⟨p, hp, hdepth, he⟩ => ⟨.plain p, hp, hdepth, he⟩
  intro tokens e rest h
  unfold prefixed at h
  split at h
  · exact hplain (hotherwise _ _ _ h)
  split at h
  · exact hplain (hotherwise _ _ _ h)
  · rename_i t tokens _ op hop
    split at h
    · cases h
    · rename_i e' after hinner
      obtain ⟨rfl, rfl⟩ := Prod.mk.inj (Except.ok.inj h)
      obtain ⟨level, hlevel, hread⟩ := enter_eq_ok.1 hinner
      obtain ⟨m, rfl, hsound⟩ := hdeeper level hlevel
      obtain ⟨p, hp, hdepth, rfl⟩ := hsound.prefixed c _ _ _ hread
      refine ⟨.prefixed t.lexeme op hop p, ?_, Nat.succ_le_succ hdepth, rfl⟩
      rw [List.map_cons, hp, Phrase.lexemes, List.cons_append]

theorem qualifiedField?_eq_some {tokens : List Token} {key : String}
    {rest : { rest : List Token // rest.length ≤ tokens.length }}
    (h : qualifiedField? s tokens = .ok (some (key, rest))) :
    (∃ l : Lexeme, l.word? = some key ∧
        tokens.map Token.lexeme = .symbol .dot :: l :: rest.1.map Token.lexeme) ∨
      tokens.map Token.lexeme =
        .symbol .openBracket :: .text key :: .symbol .closeBracket :: rest.1.map Token.lexeme := by
  unfold qualifiedField? at h
  split at h
  · split at h
    · obtain ⟨rfl, rfl⟩ := Prod.mk.inj (Option.some.inj (Except.ok.inj h))
      exact .inl ⟨_, rfl, rfl⟩
    · obtain ⟨rfl, rfl⟩ := Prod.mk.inj (Option.some.inj (Except.ok.inj h))
      exact .inl ⟨_, rfl, rfl⟩
    · cases h
  · split at h
    · obtain ⟨rfl, rfl⟩ := Prod.mk.inj (Option.some.inj (Except.ok.inj h))
      exact .inr rfl
    · cases h
    · cases h
  · cases h

theorem closeGroup_eq_ok {tokens : List Token} {rest : Shorter tokens}
    (h : closeGroup s tokens = .ok rest) :
    tokens.map Token.lexeme = .symbol .closeParen :: rest.1.map Token.lexeme := by
  unfold closeGroup at h
  split at h
  · obtain rfl := Except.ok.inj h
    rfl
  · cases h

theorem primary_readsOnly
    (hdeeper : ∀ level, deeper = some level → ∃ m, n = m + 1 ∧ level.ReadsOnly m) :
    ReadsOnly .primary n (primary s deeper) := by
  -- a phrase of one token
  have hleaf : ∀ {t : Token} {rest : List Token} (p : Phrase .primary), p.lexemes = [t.lexeme] →
      p.depth = 0 → Derives .primary n (t :: rest) p.denotes rest := fun p hp hdepth =>
    ⟨p, by rw [hp]; rfl, hdepth ▸ Nat.zero_le n, rfl⟩
  intro tokens e rest h
  unfold primary at h
  split at h
  · cases h
  rename_i t tokens
  split at h
  · rename_i v hlexeme
    obtain ⟨rfl, rfl⟩ := Prod.mk.inj (Except.ok.inj h)
    exact hleaf (.literal (.number v) _ rfl) (by rw [hlexeme]; rfl) rfl
  · rename_i v hlexeme
    obtain ⟨rfl, rfl⟩ := Prod.mk.inj (Except.ok.inj h)
    exact hleaf (.literal (.text v) _ rfl) (by rw [hlexeme]; rfl) rfl
  · rename_i hlexeme
    obtain ⟨rfl, rfl⟩ := Prod.mk.inj (Except.ok.inj h)
    exact hleaf (.literal (.keyword .true) _ rfl) (by rw [hlexeme]; rfl) rfl
  · rename_i hlexeme
    obtain ⟨rfl, rfl⟩ := Prod.mk.inj (Except.ok.inj h)
    exact hleaf (.literal (.keyword .false) _ rfl) (by rw [hlexeme]; rfl) rfl
  · rename_i hlexeme
    obtain ⟨rfl, rfl⟩ := Prod.mk.inj (Except.ok.inj h)
    exact hleaf (.literal (.keyword .null) _ rfl) (by rw [hlexeme]; rfl) rfl
  · cases h
  · rename_i hlexeme
    split at h
    · cases h
    · rename_i key after hfield
      obtain ⟨rfl, rfl⟩ := Prod.mk.inj (Except.ok.inj h)
      rcases qualifiedField?_eq_some hfield with ⟨l, hword, htokens⟩ | htokens
      · refine ⟨.member l key hword, ?_, Nat.zero_le n, rfl⟩
        rw [List.map_cons, hlexeme, htokens]
        rfl
      · refine ⟨.entry key, ?_, Nat.zero_le n, rfl⟩
        rw [List.map_cons, hlexeme, htokens]
        rfl
    · obtain ⟨rfl, rfl⟩ := Prod.mk.inj (Except.ok.inj h)
      exact hleaf (.field "values") (by rw [hlexeme]; rfl) rfl
  · rename_i key _ hlexeme
    obtain ⟨rfl, rfl⟩ := Prod.mk.inj (Except.ok.inj h)
    exact hleaf (.field key) (by rw [hlexeme]; rfl) rfl
  · rename_i hlexeme
    split at h
    · cases h
    · rename_i e' inner hinner
      split at h
      · cases h
      · rename_i after hclose
        obtain ⟨rfl, rfl⟩ := Prod.mk.inj (Except.ok.inj h)
        obtain ⟨level, hlevel, hread⟩ := enter_eq_ok.1 hinner
        obtain ⟨m, rfl, hsound⟩ := hdeeper level hlevel
        obtain ⟨p, hp, hdepth, rfl⟩ := hsound.expr _ _ _ hread
        refine ⟨.group p, ?_, Nat.succ_le_succ hdepth, rfl⟩
        rw [List.map_cons, hlexeme, hp, closeGroup_eq_ok hclose, Phrase.lexemes, List.cons_append,
          List.append_assoc]
        rfl
  · cases h

/-- Category by category, from the tightest to the loosest. -/
theorem parserOf_readsOnly
    (hdeeper : ∀ level, deeper = some level → ∃ m, n = m + 1 ∧ level.ReadsOnly m) (c : Category) :
    ReadsOnly c n (parserOf s deeper c) := by
  have hchain : ∀ c : Chain, ReadsOnly c.operand n (parserOf s deeper c.operand) →
      ReadsOnly (.chain c) n (parserOf s deeper (.chain c)) := fun c h =>
    parserOf_chain c ▸ chain_readsOnly h
  have hprefixed : ∀ c : Prefixing, ReadsOnly c.base n (parserOf s deeper c.base) →
      ReadsOnly (.prefixed c) n (parserOf s deeper (.prefixed c)) := fun c h =>
    parserOf_prefixed c ▸ prefixed_readsOnly hdeeper h
  have primary : ReadsOnly .primary n (parserOf s deeper .primary) := primary_readsOnly hdeeper
  have sign := hprefixed .sign primary
  have sum := hchain .sum (hchain .product sign)
  have negation := hprefixed .negation (hchain .comparison sum)
  have conjunction := hchain .conjunction negation
  cases c with
  | primary => exact primary
  | prefixed c =>
      cases c with
      | sign => exact sign
      | negation => exact negation
  | chain c =>
      cases c with
      | product => exact hchain .product sign
      | sum => exact sum
      | comparison => exact hchain .comparison sum
      | conjunction => exact conjunction
      | disjunction => exact hchain .disjunction conjunction

/-- What may nest inside a level that allows `n` levels below it. -/
def Level.inside (s : Setting) : Nat → Option Level
  | 0 => none
  | n + 1 => some (.allowing s n)

theorem Level.allowing_eq (s : Setting) (n : Nat) :
    Level.allowing s n = .over s (Level.inside s n) := by
  cases n with
  | zero => rw [Level.allowing, inside]
  | succ n => rw [Level.allowing, inside]

theorem Level.allowing_readsOnly (s : Setting) (n : Nat) : (Level.allowing s n).ReadsOnly n := by
  induction n with
  | zero =>
      rw [Level.allowing_eq]
      have hall : ∀ c, Expression.ReadsOnly c 0 (parserOf s none c) :=
        parserOf_readsOnly fun _ h => by cases h
      exact ⟨hall .expr, fun c => hall (.prefixed c)⟩
  | succ n ih =>
      rw [Level.allowing_eq]
      have hall : ∀ c, Expression.ReadsOnly c (n + 1) (parserOf s (Level.inside s (n + 1)) c) :=
        parserOf_readsOnly fun level h => ⟨n, rfl, Option.some.inj h ▸ ih⟩
      exact ⟨hall .expr, fun c => hall (.prefixed c)⟩

/-! ### What can be derived is parsed -/

/-- How loosely the operators of a category bind. -/
def Category.rank : Category → Nat
  | .primary => 0
  | .prefixed .sign => 1
  | .chain .product => 2
  | .chain .sum => 3
  | .chain .comparison => 4
  | .prefixed .negation => 5
  | .chain .conjunction => 6
  | .chain .disjunction => 7

theorem Chain.rank_operand (c : Chain) : c.operand.rank < (Category.chain c).rank := by
  cases c <;> decide

theorem Prefixing.rank_base (c : Prefixing) : c.base.rank < (Category.prefixed c).rank := by
  cases c <;> decide

/-- The chain that a lexeme is an operator of. -/
def Lexeme.chain? : Lexeme → Option Chain
  | .symbol .orOr | .keyword .or => some .disjunction
  | .symbol .andAnd | .keyword .and => some .conjunction
  | .symbol .eq | .symbol .ne | .symbol .strictEq | .symbol .strictNe
  | .symbol .lt | .symbol .le | .symbol .gt | .symbol .ge => some .comparison
  | .symbol .plus | .symbol .minus => some .sum
  | .symbol .star | .symbol .slash | .symbol .percent => some .product
  | _ => none

/-- The category whose phrases a lexeme stands in front of as a prefix operator. -/
def Lexeme.prefixing? : Lexeme → Option Prefixing
  | .symbol .bang | .keyword .not => some .negation
  | .symbol .minus | .symbol .plus => some .sign
  | _ => none

theorem chain?_of_join? {c : Chain} {l : Lexeme} {join : Expression → Expression → Expression}
    (h : c.join? l = some join) : l.chain? = some c := by
  unfold Chain.join? at h
  split at h
  case h_18 => cases h
  all_goals rfl

theorem prefixing?_of_operator? {c : Prefixing} {l : Lexeme} {op : UnaryOp}
    (h : c.operator? l = some op) : l.prefixing? = some c := by
  unfold Prefixing.operator? at h
  split at h
  case h_5 => cases h
  all_goals rfl

/-- A value that a token writes stands behind no prefix operator. -/
theorem prefixing?_of_literal? {l : Lexeme} {v : Literal} (h : l.literal? = some v) :
    l.prefixing? = none := by
  unfold Lexeme.literal? at h
  split at h
  case h_6 => cases h
  all_goals rfl

/-- A lexeme carries a phrase of a category on: it is an operator of this chain or of a tighter one,
or it qualifies a name. -/
def Category.IsCarriedOnBy (c : Category) (l : Lexeme) : Prop :=
  l = .symbol .dot ∨ l = .symbol .openBracket ∨
    ∃ d : Chain, l.chain? = some d ∧ (Category.chain d).rank ≤ c.rank

/-- What follows a phrase does not carry it on. -/
def Category.EndsBefore (c : Category) (tail : List Lexeme) : Prop :=
  ∀ l ∈ tail.head?, ¬ c.IsCarriedOnBy l

theorem Category.EndsBefore.mono {c d : Category} {tail : List Lexeme} (h : c.EndsBefore tail)
    (hrank : d.rank ≤ c.rank) : d.EndsBefore tail := fun l hl hd =>
  h l hl (hd.imp_right (Or.imp_right fun ⟨e, he, her⟩ => ⟨e, he, Nat.le_trans her hrank⟩))

theorem Category.endsBefore_closeParen (c : Category) (tail : List Lexeme) :
    c.EndsBefore (.symbol .closeParen :: tail) := by
  rintro l hl (h | h | ⟨d, hd, -⟩)
  · exact absurd (Option.some.inj hl ▸ h) (by decide)
  · exact absurd (Option.some.inj hl ▸ h) (by decide)
  · obtain rfl := Option.some.inj hl
    cases hd

/-- An operand ends before an operator of its chain. -/
theorem Chain.operand_endsBefore {c : Chain} {l : Lexeme}
    {join : Expression → Expression → Expression} (h : c.join? l = some join)
    (tail : List Lexeme) : c.operand.EndsBefore (l :: tail) := by
  have hl := chain?_of_join? h
  rintro _ ⟨⟩ (rfl | rfl | ⟨d, hd, hrank⟩)
  · cases hl
  · cases hl
  · obtain rfl := Option.some.inj (hd.symm.trans hl)
    exact absurd hrank (Nat.not_le.2 d.rank_operand)

/-- After a whole chain there is no operator of it. -/
theorem Category.EndsBefore.join?_eq_none {c : Chain} {l : Lexeme} {tail : List Lexeme}
    (h : (Category.chain c).EndsBefore (l :: tail)) : c.join? l = none := by
  cases hjoin : c.join? l with
  | none => rfl
  | some join =>
      exact absurd (.inr (.inr ⟨c, chain?_of_join? hjoin, Nat.le_refl _⟩)) (h l rfl)

/-- A phrase starts with a token, and with a prefix operator only if its category has one or has
looser ones. -/
theorem Phrase.exists_head {c : Category} : (p : Phrase c) → ∃ l tail, p.lexemes = l :: tail ∧
    ∀ d, l.prefixing? = some d → (Category.prefixed d).rank ≤ c.rank
  | .chain (c := c) first links => by
      obtain ⟨l, tail, hp, hl⟩ := first.exists_head
      refine ⟨l, tail ++ links.lexemes, by rw [Phrase.lexemes, hp, List.cons_append], ?_⟩
      exact fun d hd => Nat.le_trans (hl d hd) (Nat.le_of_lt c.rank_operand)
  | .prefixed l op operator operand => by
      refine ⟨l, operand.lexemes, rfl, fun d hd => ?_⟩
      obtain rfl := Option.some.inj ((prefixing?_of_operator? operator).symm.trans hd)
      exact Nat.le_refl _
  | .plain (c := c) phrase => by
      obtain ⟨l, tail, hp, hl⟩ := phrase.exists_head
      refine ⟨l, tail, hp, fun d hd => ?_⟩
      exact Nat.le_trans (hl d hd) (Nat.le_of_lt c.rank_base)
  | .literal l v value => ⟨l, _, rfl, fun d hd => by
      rw [prefixing?_of_literal? value] at hd
      cases hd⟩
  | .field _ => ⟨_, _, rfl, fun _ hd => by cases hd⟩
  | .member _ _ _ => ⟨_, _, rfl, fun _ hd => by cases hd⟩
  | .entry _ => ⟨_, _, rfl, fun _ hd => by cases hd⟩
  | .group _ => ⟨_, _, rfl, fun _ hd => by cases hd⟩

/-- A phrase that stands under a prefix operator's category does not start with such an operator. -/
theorem Prefixing.exists_head {c : Prefixing} (p : Phrase c.base) :
    ∃ l tail, p.lexemes = l :: tail ∧ c.operator? l = none := by
  obtain ⟨l, tail, hp, hl⟩ := p.exists_head
  refine ⟨l, tail, hp, ?_⟩
  cases hop : c.operator? l with
  | none => rfl
  | some op =>
      exact absurd (hl c (prefixing?_of_operator? hop)) (Nat.not_le.2 c.rank_base)

/-- A parser reads an expression off the front of some tokens and leaves what a tail of lexemes
stands for. -/
def Leaves (p : Parser Expression) (tokens : List Token) (e : Expression) (tail : List Lexeme) :
    Prop :=
  ∃ rest : Shorter tokens, p tokens = .ok (e, rest) ∧ rest.1.map Token.lexeme = tail

theorem chainFrom_of_endsBefore {c : Chain} {operand : Parser Expression} {left : Expression}
    {tokens : List Token} (h : (Category.chain c).EndsBefore (tokens.map Token.lexeme)) :
    chainFrom c.join? (fun join => join) operand left tokens =
      .ok (left, ⟨tokens, Nat.le_refl _⟩) := by
  cases tokens with
  | nil => rw [chainFrom]
  | cons t tokens =>
      rw [chainFrom, Category.EndsBefore.join?_eq_none h]

theorem chainFrom_cons {c : Chain} {operand : Parser Expression} {left right e : Expression}
    {join : Expression → Expression → Expression} {t : Token} {tokens : List Token}
    {tail : List Lexeme} {after : Shorter tokens} (hjoin : c.join? t.lexeme = some join)
    (hright : operand tokens = .ok (right, after))
    (hrest : ∃ rest, chainFrom c.join? (fun join => join) operand (join left right) after.1 =
      .ok (e, rest) ∧ rest.1.map Token.lexeme = tail) :
    ∃ rest, chainFrom c.join? (fun join => join) operand left (t :: tokens) = .ok (e, rest) ∧
      rest.1.map Token.lexeme = tail := by
  obtain ⟨rest, hrest, htail⟩ := hrest
  rw [chainFrom, hjoin]
  simp only [hright, hrest]
  exact ⟨_, rfl, htail⟩

theorem chain_leaves {c : Chain} {operand : Parser Expression} {left e : Expression}
    {tokens : List Token} {tail : List Lexeme} {after : Shorter tokens}
    (hleft : operand tokens = .ok (left, after))
    (hrest : ∃ rest, chainFrom c.join? (fun join => join) operand left after.1 = .ok (e, rest) ∧
      rest.1.map Token.lexeme = tail) :
    Leaves (chain c.join? (fun join => join) operand) tokens e tail := by
  obtain ⟨rest, hrest, htail⟩ := hrest
  unfold Leaves chain
  simp only [hleft, hrest]
  exact ⟨_, rfl, htail⟩

theorem prefixed_leaves {c : Prefixing} {otherwise : Parser Expression} {op : UnaryOp}
    {e : Expression} {t : Token} {tokens : List Token} {tail : List Lexeme}
    (hop : c.operator? t.lexeme = some op)
    (hoperand : Leaves (c.part (.allowing s n)) tokens e tail) :
    Leaves (prefixed s (Level.inside s (n + 1)) c.operator? c.part otherwise) (t :: tokens)
      (.unary op e) tail := by
  obtain ⟨rest, hrest, htail⟩ := hoperand
  have henter : enter s (Level.inside s (n + 1)) c.part tokens = .ok (e, rest) :=
    enter_eq_ok.2 ⟨_, rfl, hrest⟩
  unfold Leaves prefixed
  simp only [hop, henter]
  exact ⟨_, rfl, htail⟩

theorem prefixed_of_operator?_eq_none {c : Prefixing} {otherwise : Parser Expression} {t : Token}
    {tokens : List Token} (hop : c.operator? t.lexeme = none) :
    prefixed s deeper c.operator? c.part otherwise (t :: tokens) = otherwise (t :: tokens) := by
  unfold prefixed
  simp only [hop]

theorem primary_group_leaves {e : Expression} {t : Token} {tokens : List Token}
    {tail : List Lexeme} (ht : t.lexeme = .symbol .openParen)
    (hinner : Leaves (Level.allowing s n).expr tokens e (.symbol .closeParen :: tail)) :
    Leaves (primary s (Level.inside s (n + 1))) (t :: tokens) e tail := by
  obtain ⟨⟨inner, hlt⟩, hinner, hclose⟩ := hinner
  have henter : enter s (Level.inside s (n + 1)) Level.expr tokens = .ok (e, ⟨inner, hlt⟩) :=
    enter_eq_ok.2 ⟨_, rfl, hinner⟩
  obtain ⟨⟨_, start, size⟩, rest, rfl, rfl, htail⟩ := List.map_eq_cons_iff.1 hclose
  unfold Leaves primary
  simp only [ht, henter]
  exact ⟨_, rfl, htail⟩

theorem primary_literal_leaves {v : Literal} {t : Token} {tokens : List Token}
    (ht : t.lexeme.literal? = some v) :
    Leaves (primary s deeper) (t :: tokens) (.literal v) (tokens.map Token.lexeme) := by
  obtain ⟨l, start, size⟩ := t
  change l.literal? = some v at ht
  unfold Lexeme.literal? at ht
  split at ht
  case h_6 => cases ht
  all_goals
    obtain rfl := Option.some.inj ht
    exact ⟨afterFirst, rfl, rfl⟩

/-- The word `values` is a name like any other where nothing qualifies it. -/
theorem qualifiedField?_eq_none {tokens : List Token}
    (h : Category.primary.EndsBefore (tokens.map Token.lexeme)) :
    qualifiedField? s tokens = .ok none := by
  unfold qualifiedField?
  split
  · exact absurd (.inl rfl) (h _ rfl)
  · exact absurd (.inr (.inl rfl)) (h _ rfl)
  · rfl

theorem primary_field_leaves {key : String} {t : Token} {tokens : List Token}
    (ht : t.lexeme = .name key)
    (hend : Category.primary.EndsBefore (tokens.map Token.lexeme)) :
    Leaves (primary s deeper) (t :: tokens) (.field key) (tokens.map Token.lexeme) := by
  unfold Leaves primary
  by_cases hkey : key = "values"
  · subst hkey
    simp only [ht, qualifiedField?_eq_none hend]
    exact ⟨_, rfl, rfl⟩
  · simp only [ht]
    exact ⟨_, rfl, rfl⟩

theorem primary_qualified_leaves {key : String} {t : Token} {tokens : List Token}
    {tail : List Lexeme} {rest : { rest : List Token // rest.length ≤ tokens.length }}
    (ht : t.lexeme = .name "values") (hfield : qualifiedField? s tokens = .ok (some (key, rest)))
    (htail : rest.1.map Token.lexeme = tail) :
    Leaves (primary s deeper) (t :: tokens) (.field key) tail := by
  unfold Leaves primary
  simp only [ht, hfield]
  exact ⟨_, rfl, htail⟩

theorem qualifiedField?_dot {key : String} {l : Lexeme} {tokens : List Token}
    {tail : List Lexeme} (hword : l.word? = some key)
    (h : tokens.map Token.lexeme = .symbol .dot :: l :: tail) :
    ∃ rest, qualifiedField? s tokens = .ok (some (key, rest)) ∧ rest.1.map Token.lexeme = tail := by
  obtain ⟨⟨_, _, _⟩, last, rfl, rfl, hlast⟩ := List.map_eq_cons_iff.1 h
  obtain ⟨⟨word, _, _⟩, rest, rfl, rfl, htail⟩ := List.map_eq_cons_iff.1 hlast
  cases word with
  | name k =>
      obtain rfl := Option.some.inj hword
      exact ⟨_, rfl, htail⟩
  | keyword k =>
      obtain rfl := Option.some.inj hword
      exact ⟨_, rfl, htail⟩
  | _ => cases hword

theorem qualifiedField?_bracket {key : String} {tokens : List Token} {tail : List Lexeme}
    (h : tokens.map Token.lexeme =
      .symbol .openBracket :: .text key :: .symbol .closeBracket :: tail) :
    ∃ rest, qualifiedField? s tokens = .ok (some (key, rest)) ∧ rest.1.map Token.lexeme = tail := by
  obtain ⟨⟨_, _, _⟩, inner, rfl, rfl, hinner⟩ := List.map_eq_cons_iff.1 h
  obtain ⟨⟨_, _, _⟩, last, rfl, rfl, hlast⟩ := List.map_eq_cons_iff.1 hinner
  obtain ⟨⟨_, _, _⟩, rest, rfl, rfl, htail⟩ := List.map_eq_cons_iff.1 hlast
  exact ⟨_, rfl, htail⟩

/-- The operands of a chain end where its links begin. -/
theorem Links.operand_endsBefore {c : Chain} {tail : List Lexeme} (links : Links c)
    (hend : (Category.chain c).EndsBefore tail) :
    c.operand.EndsBefore (links.lexemes ++ tail) := by
  cases links with
  | nil => exact hend.mono (Nat.le_of_lt c.rank_operand)
  | cons l join operator right rest =>
      rw [Links.lexemes, List.cons_append]
      exact Chain.operand_endsBefore operator _

mutual

/-- A phrase is read where it ends, by a parser that allows it as deep as it nests. The induction is
on the derivation. -/
theorem Phrase.leaves {c : Category} : (p : Phrase c) → ∀ {n : Nat} {tokens : List Token}
    {tail : List Lexeme}, p.depth ≤ n → tokens.map Token.lexeme = p.lexemes ++ tail →
      c.EndsBefore tail → Leaves (parserOf s (Level.inside s n) c) tokens p.denotes tail
  | .chain (c := c) first links, n, tokens, tail, hdepth, htokens, hend => by
      obtain ⟨hfirst, hlinks⟩ := Nat.max_le.1 hdepth
      rw [Phrase.lexemes, List.append_assoc] at htokens
      obtain ⟨after, hleft, hafter⟩ := first.leaves hfirst htokens (links.operand_endsBefore hend)
      rw [parserOf_chain]
      exact chain_leaves hleft (links.leaves hlinks hafter hend)
  | .prefixed (c := c) l op operator operand, n, tokens, tail, hdepth, htokens, hend => by
      obtain ⟨t, tokens, rfl, rfl, hrest⟩ := List.map_eq_cons_iff.1 htokens
      obtain ⟨m, rfl⟩ := Nat.exists_eq_add_one.2 (Nat.lt_of_lt_of_le (Nat.succ_pos _) hdepth)
      rw [parserOf_prefixed]
      refine prefixed_leaves operator ?_
      rw [Level.allowing_eq]
      exact operand.leaves (Nat.le_of_succ_le_succ hdepth) hrest hend
  | .plain (c := c) phrase, n, tokens, tail, hdepth, htokens, hend => by
      have hread := phrase.leaves hdepth htokens (hend.mono (Nat.le_of_lt c.rank_base))
      obtain ⟨l, others, hhead, hop⟩ := Prefixing.exists_head phrase
      rw [Phrase.lexemes, hhead] at htokens
      obtain ⟨t, tokens, rfl, rfl, -⟩ := List.map_eq_cons_iff.1 htokens
      unfold Leaves
      rw [parserOf_prefixed, prefixed_of_operator?_eq_none hop]
      exact hread
  | .literal l v value, n, tokens, tail, hdepth, htokens, hend => by
      obtain ⟨t, tokens, rfl, rfl, rfl⟩ := List.map_eq_cons_iff.1 htokens
      exact primary_literal_leaves value
  | .field key, n, tokens, tail, hdepth, htokens, hend => by
      obtain ⟨t, tokens, rfl, ht, rfl⟩ := List.map_eq_cons_iff.1 htokens
      exact primary_field_leaves ht hend
  | .member l key word, n, tokens, tail, hdepth, htokens, hend => by
      obtain ⟨t, tokens, rfl, ht, hrest⟩ := List.map_eq_cons_iff.1 htokens
      obtain ⟨rest, hfield, htail⟩ := qualifiedField?_dot word hrest
      exact primary_qualified_leaves ht hfield htail
  | .entry key, n, tokens, tail, hdepth, htokens, hend => by
      obtain ⟨t, tokens, rfl, ht, hrest⟩ := List.map_eq_cons_iff.1 htokens
      obtain ⟨rest, hfield, htail⟩ := qualifiedField?_bracket hrest
      exact primary_qualified_leaves ht hfield htail
  | .group inner, n, tokens, tail, hdepth, htokens, hend => by
      rw [Phrase.lexemes, List.cons_append, List.append_assoc] at htokens
      obtain ⟨t, tokens, rfl, ht, hrest⟩ := List.map_eq_cons_iff.1 htokens
      obtain ⟨m, rfl⟩ := Nat.exists_eq_add_one.2 (Nat.lt_of_lt_of_le (Nat.succ_pos _) hdepth)
      refine primary_group_leaves ht ?_
      rw [Level.allowing_eq]
      exact inner.leaves (Nat.le_of_succ_le_succ hdepth) hrest (Category.endsBefore_closeParen _ _)

theorem Links.leaves {c : Chain} : (links : Links c) → ∀ {n : Nat} {left : Expression}
    {tokens : List Token} {tail : List Lexeme}, links.depth ≤ n →
      tokens.map Token.lexeme = links.lexemes ++ tail → (Category.chain c).EndsBefore tail →
        ∃ rest, chainFrom c.join? (fun join => join) (parserOf s (Level.inside s n) c.operand) left
            tokens =
          .ok (links.joins.foldl (fun left link => link.1 left link.2) left, rest) ∧
            rest.1.map Token.lexeme = tail
  | .nil, n, left, tokens, tail, hdepth, htokens, hend => by
      rw [Links.lexemes, List.nil_append] at htokens
      exact ⟨_, chainFrom_of_endsBefore (htokens ▸ hend), htokens⟩
  | .cons l join operator right rest, n, left, tokens, tail, hdepth, htokens, hend => by
      obtain ⟨hright, hrest⟩ := Nat.max_le.1 hdepth
      rw [Links.lexemes, List.cons_append, List.append_assoc] at htokens
      obtain ⟨t, tokens, rfl, rfl, hmore⟩ := List.map_eq_cons_iff.1 htokens
      obtain ⟨after, hread, hafter⟩ := right.leaves hright hmore (rest.operand_endsBefore hend)
      exact chainFrom_cons operator hread (rest.leaves hrest hafter hend)

end

/-! ### Parsing -/

/-- A phrase of a whole expression is read up to the end of the tokens. -/
theorem Phrase.read_to_end (p : Phrase .expr) {tokens : List Token}
    (htokens : tokens.map Token.lexeme = p.lexemes) (hdepth : p.depth ≤ n) :
    ∃ hlt, (Level.allowing s n).expr tokens = .ok (p.denotes, ⟨[], hlt⟩) := by
  have hend : Category.expr.EndsBefore [] := fun l hl => by cases hl
  obtain ⟨⟨rest, hlt⟩, hread, hrest⟩ :=
    Phrase.leaves (s := s) p hdepth (htokens.trans (List.append_nil _).symm) hend
  obtain rfl := List.map_eq_nil_iff.1 hrest
  rw [Level.allowing_eq]
  exact ⟨hlt, hread⟩

/-- The grammar is unambiguous: all phrases that write the same lexemes denote the same
expression. -/
theorem Phrase.denotes_eq_of_lexemes_eq {p q : Phrase .expr} (h : p.lexemes = q.lexemes) :
    p.denotes = q.denotes := by
  let s : Setting := ⟨0, 0⟩
  have htokens : (p.lexemes.map (Token.mk · 0 0)).map Token.lexeme = p.lexemes := by
    rw [List.map_map]
    exact List.map_id _
  obtain ⟨_, hp⟩ := p.read_to_end (s := s) htokens (Nat.le_max_left _ q.depth)
  obtain ⟨_, hq⟩ := q.read_to_end (s := s) (htokens.trans h) (Nat.le_max_right p.depth _)
  exact (Prod.mk.inj (Except.ok.inj (hp.symm.trans hq))).1

/-- Tokens are parsed as an expression exactly if a phrase derives them that denotes it and nests no
deeper than allowed. -/
theorem parse_eq_ok_iff {tokens : List Token} {e : Expression} :
    parse s tokens = .ok e ↔ ∃ p : Phrase .expr, p.lexemes = tokens.map Token.lexeme ∧
      p.depth ≤ s.depthLimit.toNat ∧ p.denotes = e := by
  constructor
  · intro h
    unfold parse at h
    split at h
    · cases h
    · rename_i e' hread
      obtain rfl := Except.ok.inj h
      obtain ⟨p, hp, hdepth, he⟩ := (Level.allowing_readsOnly s _).expr _ _ _ hread
      exact ⟨p, by rw [hp, List.map_nil, List.append_nil], hdepth, he⟩
    · cases h
  · rintro ⟨p, hp, hdepth, rfl⟩
    obtain ⟨_, hread⟩ := p.read_to_end hp.symm hdepth
    unfold parse
    rw [hread]

end FormDesigner.Expression
