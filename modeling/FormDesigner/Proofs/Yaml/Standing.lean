import FormDesigner.Proofs.Yaml.Turns

/-!
# The tokens of scalars, keys and hyphens

Each turn takes a scalar, a pair of brackets, a key with its colon or a hyphen, from a place where
nothing but the open collections is remembered to the next such place.
-/

namespace FormDesigner

namespace Yaml

namespace Scan

/-- Scanning stands in a column before some text, inside collections that begin in the columns of
`stack`, and remembers no place of a key. -/
structure Stands (s : Scan) (free : Bool) (rest : List Char) (column : Nat) (stack : List Int)
    (tokens : List Token) : Prop where
  keyAllowed : s.keyAllowed = free
  rest : s.rest = rest
  column : s.column = column
  flow : s.flow = 0
  stack : s.indent :: s.outer = stack
  places : s.places = []
  tokens : s.tokens.toList = tokens

/-- The place of a key that begins here. -/
def place (s : Scan) : KeyPlace :=
  ⟨s.tokens.size, s.flow == 0 && s.indent == (s.column : Int), s.index, s.line, s.column⟩

/-- The scan with this place remembered if a key may begin, and no key allowed to begin after it. -/
def saving (s : Scan) : Scan :=
  { s with places := if s.keyAllowed then [(s.flow, s.place)] else [], keyAllowed := false }

variable {s : Scan} {m : Nat} {cs rest : List Char}

/-- To the first character of the next line. -/
theorem ahead_to_line (h : s.rest = cs ++ '\n' :: (indentation m ++ rest)) :
    (s.ahead (cs.length + (m + 1))).rest = rest ∧ (s.ahead (cs.length + (m + 1))).column = m ∧
      s.line < (s.ahead (cs.length + (m + 1))).line := by
  have hline := line_le_ahead s cs.length
  rw [ahead_add, ahead_feed (rest_ahead h)]
  exact ⟨rfl, rfl, Nat.lt_succ_of_le hline⟩

end Scan

variable {s t : Scan} {m n : Nat}

theorem forward_inline {c : Char} {rest : List Char} (h : s.rest = c :: rest)
    (hc : isBreak c = false ∧ c ≠ byteOrderMark) :
    (forward 1).run s
      = .ok ((), { s with rest := rest, index := s.index + 1, column := s.column + 1 }) := by
  have hinline : Scan.IsInline [c] := List.forall_mem_singleton.2 hc
  rw [forward_run]
  exact congrArg (fun t => Except.ok ((), t)) (Scan.ahead_inline h hinline)

theorem forward_push {c : Char} {rest : List Char} (h : s.rest = c :: rest)
    (hc : isBreak c = false ∧ c ≠ byteOrderMark) (token : Token) :
    (forward 1 >>= fun _ => push token).run s
      = .ok ((), { s with rest := rest, index := s.index + 1, column := s.column + 1,
                          tokens := s.tokens.push token }) := by
  rw [run_bind (forward_inline h hc)]
  rfl

theorem dropPlace_run (h : s.places.lookup s.flow = none) : dropPlace.run s = .ok ((), s) := by
  rw [dropPlace, run_get_bind, h]
  rfl

theorem savePlace_run (h : s.places = []) :
    savePlace.run s = .ok ((), { s with places := s.saving.places }) := by
  have hdrop : dropPlace.run s = .ok ((), s) := dropPlace_run (by rw [h]; rfl)
  rw [savePlace, run_get_bind]
  split
  · next hkey =>
      rw [run_bind hdrop]
      simp [Scan.saving, hkey, h]
      rfl
  · next hkey =>
      cases s
      simp_all [Scan.saving]
      rfl

theorem keyLike_run {x : Scanner Token} {token : Token} (h : s.places = [])
    (hx : x.run s.saving = .ok (token, t)) : (keyLike x).run s = .ok ((), t.pushing token) := by
  rw [keyLike, run_bind (savePlace_run h), run_bind (allowKey_run false _)]
  change (x >>= push).run s.saving = _
  rw [run_bind hx]
  rfl

/-! ### Scalars -/

/-- What a value may be followed by: the first token of the next line. -/
structure Follows (m : Nat) (rest : List Char) : Prop where
  token : StartsToken rest
  separated : IsUnseparated (indentation m ++ rest)

/-- Some tokens have been taken: a place may be remembered where they begin, and besides nothing has
changed but the place in the text. -/
structure Scan.Took (s t : Scan) (new : List Token) : Prop where
  flow : t.flow = s.flow
  indent : t.indent = s.indent
  outer : t.outer = s.outer
  places : t.places = s.saving.places
  tokens : t.tokens.toList = s.tokens.toList ++ new

section Values

variable {b : Bool} {column : Nat} {outer : List Int} {ts new : List Token} {cs rest : List Char}
variable (hs : s.Stands b (cs ++ '\n' :: (indentation m ++ rest)) column (n :: outer) ts)

namespace Scan.Stands

include hs

theorem indent_eq : s.indent = n := (List.cons.inj hs.stack).1

variable (hcolumn : n < column)

include hcolumn

theorem inside : s.IsInside := .inl (by rw [hs.column]; omega)

theorem settled : s.indent ≤ s.column := by
  rw [hs.indent_eq, hs.column]
  omega

/-- A key that could have begun where a value does is not required to. -/
theorem saving_free {line : Nat} (hline : s.line < line) :
    ∀ p ∈ s.saving.places, p.2.required = false ∧ p.2.line ≠ line := by
  intro p hp
  change p ∈ (if s.keyAllowed then [(s.flow, s.place)] else []) at hp
  split at hp
  · obtain rfl := List.mem_singleton.1 hp
    have hne : s.indent ≠ (s.column : Int) := by
      rw [hs.indent_eq, hs.column]
      omega
    exact ⟨by simp [Scan.place, hne], Nat.ne_of_lt hline⟩
  · cases hp

/-- A value has been taken together with the end of its line. -/
theorem after_line (htook : s.Took t new) (hkey : t.keyAllowed = true) (htrest : t.rest = rest)
    (htcolumn : t.column = m) (hline : s.line < t.line) (hrest : Follows m rest) :
    ∃ u, Comes t u ∧ u.Stands true rest m (n :: outer) (ts ++ new) := by
  have hfree : t.IsFree := fun p hp => hs.saving_free hcolumn hline p (htook.places ▸ hp)
  refine ⟨_, .free htrest hrest.token hfree, hkey, htrest, htcolumn, htook.flow.trans hs.flow, ?_,
    rfl, htook.tokens.trans (by rw [hs.tokens])⟩
  rw [← hs.stack]
  exact congrArg₂ _ htook.indent htook.outer

/-- A value has been taken at the end of its line. -/
theorem before_line (htook : s.Took t new) (htrest : t.rest = '\n' :: (indentation m ++ rest))
    (hline : s.line ≤ t.line) (hrest : Follows m rest) :
    ∃ u, Comes t u ∧ u.Stands true rest m (n :: outer) (ts ++ new) := by
  have hfeed := Scan.ahead_feed htrest
  have hfree : (t.ahead (m + 1)).IsFree := by
    rw [hfeed]
    exact fun p hp => hs.saving_free hcolumn (Nat.lt_succ_of_le hline) p (htook.places ▸ hp)
  refine ⟨_, .feed htrest hrest.token (htook.flow.trans hs.flow) hfree, ?_⟩
  rw [hfeed]
  refine ⟨rfl, rfl, rfl, htook.flow.trans hs.flow, ?_, rfl, htook.tokens.trans (by rw [hs.tokens])⟩
  rw [← hs.stack]
  exact congrArg₂ _ htook.indent htook.outer

variable (hrest : Follows m rest)

include hrest

/-- A plain scalar. -/
theorem plain {i : Nat} {text : List Char} (hm : m ≤ n) (hi : n < i)
    (htext : IsPlain text) (hlines : InWords i text cs) :
    ∃ t, Leads s t ∧
      t.Stands true rest m (n :: outer) (ts ++ [.scalar (String.ofList text) true]) := by
  obtain ⟨c, cs', hcs, hbegins⟩ := htext.begins hlines ('\n' :: (indentation m ++ rest))
  obtain ⟨hrest', hcolumn', hline⟩ := Scan.ahead_to_line (s := s.saving) hs.rest
  have hindent := hs.indent_eq
  have hat : s.indent + 1 ≤ (s.saving.column : Int) := by
    change s.indent + 1 ≤ (s.column : Int)
    rw [hindent, hs.column]
    omega
  have hfuel : cs.length < s.rest.length + 1 := by
    rw [hs.rest, List.length_append]
    omega
  have hdeep : s.indent + 1 ≤ i := by omega
  have hout : (m : Int) < s.indent + 1 := by omega
  have hrun := hlines.plainText_run (s := s.saving) hdeep (by omega) hout hrest.token.ink
    hrest.separated hs.flow hat hs.rest [] hfuel
  obtain ⟨t, ht⟩ : ∃ t, t = ((s.saving.ahead (cs.length + (m + 1))).allowing true).pushing
    (.scalar (String.ofList text) true) := ⟨_, rfl⟩
  have htoken : (tokenAt c).run s = .ok ((), t) := by
    rw [tokenAt_plain (hs.inside hcolumn) hbegins (.inl hs.flow) (hs.rest.trans hcs), ht]
    refine keyLike_run hs.places ?_
    rw [run_bind hrun]
    rfl
  have htook : s.Took t [.scalar (String.ofList text) true] := by
    rw [ht]
    constructor <;> simp [Scan.pushing, Scan.allowing, Scan.saving]
  have htrest : t.rest = rest := ht ▸ hrest'
  obtain ⟨u, hcomes, hu⟩ := hs.after_line hcolumn htook (ht ▸ rfl) htrest (ht ▸ hcolumn')
    (ht ▸ hline) hrest
  refine ⟨u, .turn (hs.rest.trans hcs) (hs.settled hcolumn) htoken ?_ hcomes, hu⟩
  rw [htrest, hs.rest]
  simp
  omega

/-- A scalar between quotes. -/
theorem quoted {quote : Char} (hquote : quote = '\'' ∨ quote = '"') {text out : List Char}
    (hcs : cs = quote :: out)
    (htext : ReadsText quote (out ++ '\n' :: (indentation m ++ rest)) out.length text) :
    ∃ t, Leads s t ∧
      t.Stands true rest m (n :: outer) (ts ++ [.scalar (String.ofList text) false]) := by
  subst hcs
  obtain ⟨t, ht⟩ : ∃ t, t = ((s.saving.ahead 1).ahead out.length).pushing
    (.scalar (String.ofList text) false) := ⟨_, rfl⟩
  have hnext : (s.saving.ahead 1).rest = out ++ '\n' :: (indentation m ++ rest) :=
    Scan.rest_ahead_one hs.rest
  have hfuel : out.length ≤ s.rest.length + 1 := by
    rw [hs.rest]
    simp
    omega
  have htoken : (tokenAt quote).run s = .ok ((), t) := by
    rw [tokenAt_quote (hs.inside hcolumn) hquote hs.rest, ht]
    refine keyLike_run hs.places ?_
    rw [run_bind (forward_run 1 _), run_bind (htext.run hnext hfuel)]
    rfl
  have htook : s.Took t [.scalar (String.ofList text) false] := by
    rw [ht]
    constructor <;> simp [Scan.pushing, Scan.saving]
  have htrest : t.rest = '\n' :: (indentation m ++ rest) := ht ▸ Scan.rest_ahead hnext
  have hline : s.line ≤ t.line := by
    rw [ht]
    exact Nat.le_trans (Scan.line_le_ahead s.saving 1) (Scan.line_le_ahead _ _)
  obtain ⟨u, hcomes, hu⟩ := hs.before_line hcolumn htook htrest hline hrest
  refine ⟨u, .turn hs.rest (hs.settled hcolumn) htoken ?_ hcomes, hu⟩
  rw [htrest, hs.rest]
  simp only [List.length_cons, List.length_append]
  omega

end Scan.Stands

end Values

/-! ### Empty collections -/

namespace Scan

/-- The scan behind an opening bracket. -/
def opened (s : Scan) (token : Token) (rest : List Char) : Scan :=
  { s.saving with rest := rest, index := s.index + 1, column := s.column + 1, flow := s.flow + 1,
                  keyAllowed := true, tokens := s.tokens.push token }

/-- The scan behind a closing bracket. -/
def closed (s : Scan) (token : Token) (rest : List Char) : Scan :=
  { s with rest := rest, index := s.index + 1, column := s.column + 1, flow := s.flow - 1,
           keyAllowed := false, tokens := s.tokens.push token }

theorem lookup_opened (s : Scan) (token : Token) (rest : List Char) :
    (s.opened token rest).places.lookup (s.opened token rest).flow = none := by
  change (if s.keyAllowed then [(s.flow, s.place)] else []).lookup (s.flow + 1) = none
  split
  · have hne : (s.flow + 1 == s.flow) = false := by simp
    simp only [List.lookup, hne]
  · rfl

theorem opened_isFresh (s : Scan) (token : Token) (rest : List Char) :
    (s.opened token rest).IsFresh := by
  intro p hp
  change p ∈ (if s.keyAllowed then [(s.flow, s.place)] else []) at hp
  split at hp
  · obtain rfl := List.mem_singleton.1 hp
    exact ⟨rfl, by change s.index + 1 ≤ s.index + 1024; omega⟩
  · cases hp

end Scan

section Flow

variable {token : Token} {c : Char} {rest : List Char}

theorem flowStart_run (hplaces : s.places = []) (h : s.rest = c :: rest)
    (hc : isBreak c = false ∧ c ≠ byteOrderMark) :
    (flowStart token).run s = .ok ((), s.opened token rest) := by
  rw [flowStart, run_bind (savePlace_run hplaces), run_modify_bind]
  exact forward_push (by exact h) hc token

theorem flowEnd_run (hplaces : s.places.lookup s.flow = none) (hflow : s.flow ≠ 0)
    (h : s.rest = c :: rest) (hc : isBreak c = false ∧ c ≠ byteOrderMark) :
    (flowEnd token).run s = .ok ((), s.closed token rest) := by
  have hinside : (s.flow == 0) = false := beq_eq_false_iff_ne.2 hflow
  rw [flowEnd, run_bind (dropPlace_run hplaces), run_get_bind]
  simp only [hinside, Bool.false_eq_true, if_false]
  rw [run_modify_bind]
  exact forward_push (by exact h) hc token

end Flow

/-- The brackets of a collection, and the tokens that they are. -/
inductive Brackets : Char → Char → Token → Token → Prop
  | list : Brackets '[' ']' .flowSequence .flowSequenceEnd
  | map : Brackets '\x7b' '\x7d' .flowMapping .flowMappingEnd

namespace Brackets

variable {opening closing : Char} {start stop : Token} {rest : List Char}

theorem inline (h : Brackets opening closing start stop) :
    ∀ c ∈ [opening, closing], isBreak c = false ∧ c ≠ byteOrderMark := by
  cases h <;> decide

theorem startsToken (h : Brackets opening closing start stop) :
    StartsToken (closing :: '\n' :: rest) := by
  cases h <;> exact ⟨startsInk_cons (by decide) _, by simp⟩

theorem tokenAt_opening (h : Brackets opening closing start stop) (hinside : s.IsInside)
    (hs : s.rest = opening :: rest) : (tokenAt opening).run s = (flowStart start).run s := by
  cases h with
  | list => exact tokenAt_bracket hinside hs
  | map => exact tokenAt_brace hinside hs

theorem tokenAt_closing (h : Brackets opening closing start stop) (hinside : s.IsInside)
    (hs : s.rest = closing :: rest) : (tokenAt closing).run s = (flowEnd stop).run s := by
  cases h with
  | list => exact tokenAt_bracketEnd hinside hs
  | map => exact tokenAt_braceEnd hinside hs

end Brackets

/-- Brackets with nothing between them. -/
theorem Scan.Stands.brackets {b : Bool} {column : Nat} {outer : List Int} {ts : List Token}
    {rest : List Char} {opening closing : Char} {start stop : Token}
    (hkind : Brackets opening closing start stop)
    (hs : s.Stands b ([opening, closing] ++ '\n' :: (indentation m ++ rest)) column (n :: outer) ts)
    (hcolumn : n < column) (hrest : Follows m rest) :
    ∃ t, Leads s t ∧ t.Stands true rest m (n :: outer) (ts ++ [start, stop]) := by
  have hrest' : s.rest = opening :: closing :: '\n' :: (indentation m ++ rest) := hs.rest
  obtain ⟨v, hv⟩ : ∃ v, v = s.opened start (closing :: '\n' :: (indentation m ++ rest)) := ⟨_, rfl⟩
  have hstart : (tokenAt opening).run s = .ok ((), v) := by
    rw [hkind.tokenAt_opening (hs.inside hcolumn) hrest', hv]
    exact flowStart_run hs.places hrest' (hkind.inline _ List.mem_cons_self)
  have hvrest : v.rest = closing :: '\n' :: (indentation m ++ rest) := hv ▸ rfl
  have hvflow : v.flow ≠ 0 := hv ▸ Nat.succ_ne_zero _
  have hvsettled : v.indent ≤ v.column := by
    have := hs.settled hcolumn
    rw [hv]
    change s.indent ≤ ((s.column + 1 : Nat) : Int)
    omega
  obtain ⟨t, ht⟩ : ∃ t, t = v.closed stop ('\n' :: (indentation m ++ rest)) := ⟨_, rfl⟩
  have hstop : (tokenAt closing).run v = .ok ((), t) := by
    rw [hkind.tokenAt_closing (.inl (hv ▸ Nat.succ_pos s.column)) hvrest, ht]
    exact flowEnd_run (hv ▸ s.lookup_opened _ _) hvflow hvrest
      (hkind.inline _ (List.mem_cons_of_mem _ List.mem_cons_self))
  have htook : s.Took t [start, stop] := by
    rw [ht, hv]
    exact ⟨rfl, rfl, rfl, rfl, by simp [Scan.closed, Scan.opened]⟩
  have hline : s.line ≤ t.line := by
    rw [ht, hv]
    exact Nat.le_refl _
  obtain ⟨u, hcomes, hu⟩ := hs.before_line hcolumn htook (ht ▸ rfl) hline hrest
  have hturn : Leads v u :=
    .turn hvrest hvsettled hstop (by rw [ht, hvrest]; exact Nat.lt_succ_self _) hcomes
  have hlt : v.rest.length < s.rest.length := by
    rw [hvrest, hrest']
    exact Nat.lt_succ_self _
  exact ⟨u, .turn hs.rest (hs.settled hcolumn) hstart hlt
    ((Comes.inline (k := 0) hvrest hkind.startsToken (hv ▸ s.opened_isFresh _ _)).trans hturn), hu⟩

/-! ### Keys and hyphens -/

/-- A collection in column `n` is opened, unless it is the innermost one already. -/
inductive Opens (token : Token) (n : Nat) : List Int → List Int → List Token → Prop
  | already {outer : List Int} : Opens token n (n :: outer) (n :: outer) []
  | deeper {i : Int} {outer : List Int} (h : i < n) :
      Opens token n (i :: outer) (n :: i :: outer) [token]

section Opening

variable {token : Token} {stack stack' : List Int} {os ts : List Token} {rest : List Char}

theorem Opens.settled (h : Opens token n stack stack' os) (hs : s.indent :: s.outer = stack) :
    s.indent ≤ n := by
  cases h with
  | already => exact Int.le_of_eq (List.cons.inj hs).1
  | deeper h => exact (List.cons.inj hs).1 ▸ Int.le_of_lt h

theorem Opens.exists_cons (h : Opens token n stack stack' os) :
    ∃ outer, stack' = (n : Int) :: outer := by
  cases h with
  | already => exact ⟨_, rfl⟩
  | deeper _ => exact ⟨_, rfl⟩

theorem deepen_run (h : Opens token n stack stack' os) (hs : s.indent :: s.outer = stack) :
    ∃ t : Scan, (deepen n).run s = .ok (!os.isEmpty, t) ∧
      t = { s with indent := t.indent, outer := t.outer } ∧ t.indent :: t.outer = stack' := by
  rw [deepen, run_get_bind]
  cases h with
  | already =>
      have hi := (List.cons.inj hs).1
      rw [if_neg (by omega)]
      exact ⟨s, rfl, rfl, hs⟩
  | deeper h =>
      obtain ⟨rfl, rfl⟩ := List.cons.inj hs
      rw [if_pos h]
      exact ⟨_, rfl, rfl, rfl⟩

theorem openBlock_run (h : Opens token n stack stack' os) (hs : s.Stands true rest n stack ts) :
    ∃ t, (openBlock token).run s = .ok ((), t) ∧ t.Stands true rest n stack' (ts ++ os) := by
  have hflow : (s.flow == 0) = true := by simp [hs.flow]
  obtain ⟨t, hrun, ht, hstack⟩ := deepen_run h hs.stack
  have hstands : t.Stands true rest n stack' ts := by
    rw [ht]
    exact ⟨hs.keyAllowed, hs.rest, hs.column, hs.flow, hstack, hs.places, hs.tokens⟩
  rw [openBlock, run_get_bind]
  simp only [hflow, hs.keyAllowed, hs.column, Bool.not_true, Bool.false_eq_true, if_false, if_true]
  rw [run_bind hrun]
  cases h with
  | already => exact ⟨t, rfl, by simpa using hstands⟩
  | deeper _ =>
      refine ⟨t.pushing token, rfl, ?_⟩
      exact { hstands with tokens := by simp [Scan.pushing, hstands.tokens] }

theorem isUnseparated_hyphen (hrest : endsToken rest.head? = true) :
    IsUnseparated ('-' :: rest) := by
  rintro c hc a b d more heq ⟨rfl, rfl, -⟩
  obtain ⟨rfl, rfl⟩ := List.cons.inj heq
  simp [endsToken, endsWord, endsLine, isBreak, isSeparator] at hrest

/-- The hyphen of an item. -/
theorem Scan.Stands.hyphen (hs : s.Stands true ('-' :: rest) n stack ts)
    (hopens : Opens .blockSequence n stack stack' os) (hrest : endsToken rest.head? = true) :
    ∃ t, t.Stands true rest (n + 1) stack' (ts ++ os ++ [.blockEntry]) ∧
      ∀ u, Comes t u → Leads s u := by
  obtain ⟨v, hrun, hv⟩ := openBlock_run hopens hs
  have hinside : s.IsInside :=
    .inr ⟨hs.rest ▸ isUnseparated_hyphen hrest, by simp [hs.rest]⟩
  have hsettled : s.indent ≤ s.column := hs.column ▸ hopens.settled hs.stack
  have hdrop : dropPlace.run (v.allowing true) = .ok ((), v.allowing true) :=
    dropPlace_run (by simp [Scan.allowing, hv.places])
  obtain ⟨t, ht⟩ : ∃ t : Scan, t = { v with rest := rest, index := v.index + 1,
                                            column := v.column + 1, keyAllowed := true,
                                            tokens := v.tokens.push .blockEntry } := ⟨_, rfl⟩
  have htoken : (tokenAt '-').run s = .ok ((), t) := by
    rw [tokenAt_hyphen hinside hs.rest hrest, blockEntry, run_bind hrun,
      run_bind (allowKey_run true v), run_bind hdrop,
      run_bind (forward_inline (s := v.allowing true) hv.rest (by decide)), ht]
    rfl
  refine ⟨t, ?_, fun u hcomes => .turn hs.rest hsettled htoken ?_ hcomes⟩
  · rw [ht]
    exact ⟨rfl, rfl, congrArg (· + 1) hv.column, hv.flow, hv.stack, hv.places, by simp [hv.tokens]⟩
  · rw [ht, hs.rest]
    exact Nat.lt_succ_self _

/-- A colon makes a key of the scalar before it. -/
theorem valueMark_run {token : Token} (hopens : Opens .blockMapping n stack stack' os)
    (hflow : s.flow = 0) (hstack : s.indent :: s.outer = stack) {place : KeyPlace}
    (hplaces : s.places = [(0, place)]) {a : Array Token} (ha : a.toList = ts)
    (hplace : place.column = n ∧ place.token = a.size) (htokens : s.tokens = a.push token)
    (hs : s.rest = ':' :: rest) :
    ∃ t, valueMark.run s = .ok ((), t) ∧
      t.Stands false rest (s.column + 1) stack' (ts ++ os ++ [.key, token, .value]) := by
  have hlookup : s.places.lookup s.flow = some place := by rw [hplaces, hflow]; rfl
  have hfilter : (s.places.filter fun p => p.1 != s.flow) = [] := by rw [hplaces, hflow]; rfl
  have hflow' : (s.flow == 0) = true := by simp [hflow]
  obtain ⟨v, hrun, hv, hvstack⟩ := deepen_run (s := s.forgetting) hopens hstack
  obtain ⟨added, hadded⟩ : ∃ added,
      added = if (!os.isEmpty) = true then #[Token.blockMapping, .key] else #[.key] := ⟨_, rfl⟩
  have hos : added.toList = os ++ [.key] := by
    rw [hadded]
    cases hopens <;> rfl
  obtain ⟨w, hw⟩ : ∃ w : Scan, w = { v with
      tokens := v.tokens.extract 0 a.size ++ added ++ v.tokens.extract a.size v.tokens.size
      keyAllowed := false } := ⟨_, rfl⟩
  have hwrest : w.rest = ':' :: rest := by rw [hw, hv]; exact hs
  have hvtokens : v.tokens = a.push token := by rw [hv]; exact htokens
  rw [valueMark, run_get_bind]
  simp only [hlookup, hflow', hplace.1, hplace.2, if_true]
  rw [run_modify_bind, hfilter, ← Scan.forgetting, run_bind hrun, run_modify_bind, ← hadded, ← hw,
    run_bind (forward_inline hwrest (by decide))]
  have hcolumn : v.column = s.column := by rw [hv]; rfl
  have hvflow : v.flow = 0 := by rw [hv]; exact hflow
  have hvplaces : v.places = [] := by rw [hv]; rfl
  refine ⟨_, rfl, ?_⟩
  subst ha
  rw [hw]
  exact ⟨rfl, rfl, congrArg (· + 1) hcolumn, hvflow, hvstack, hvplaces, by simp [hvtokens, hos]⟩

theorem IsName.inside {k : String} (hk : IsName k) (rest : List Char) :
    IsUnseparated (k.toList ++ ':' :: rest) ∧ (k.toList ++ ':' :: rest).head? ≠ some '%' := by
  have hhead : ∀ d : Char, d.isAlpha = false → (k.toList ++ ':' :: rest).head? ≠ some d := by
    intro d hd hc
    rw [List.head?_append_of_ne_nil _ hk.toList_ne_nil] at hc
    exact ne_of_isAlpha (hk.letters d (List.mem_of_mem_head? hc)) hd rfl
  refine ⟨isUnseparated_of_head fun c hc => ⟨?_, ?_⟩, hhead '%' rfl⟩
  · rintro rfl
    exact hhead '-' rfl hc
  · rintro rfl
    exact hhead '.' rfl hc

/-- A key and its colon. -/
theorem Scan.Stands.key {k : String} (hs : s.Stands true (k.toList ++ ':' :: rest) n stack ts)
    (hk : IsName k) (hopens : Opens .blockMapping n stack stack' os)
    (hrest : endsToken rest.head? = true) :
    ∃ t, t.Stands false rest (n + k.toList.length + 1) stack'
        (ts ++ os ++ [.key, .scalar k true, .value]) ∧ ∀ u, Comes t u → Leads s u := by
  have hsettled : s.indent ≤ s.column := hs.column ▸ hopens.settled hs.stack
  have hpos : 0 < k.toList.length := List.length_pos_iff.2 hk.toList_ne_nil
  have hinside : s.IsInside := .inr (hs.rest ▸ hk.inside rest)
  have hinline := Scan.ahead_inline (s := s.saving) hs.rest hk.isWord.isInline
  -- The name is a scalar, before which a key may begin.
  obtain ⟨c, cs, hcs, hbegins⟩ := hk.isPlain.begins (.word (n := n) hk.isWord) (':' :: rest)
  obtain ⟨v, hv⟩ : ∃ v, v = ((s.saving.ahead k.toList.length).allowing false).pushing
    (.scalar k true) := ⟨_, rfl⟩
  rw [hinline] at hv
  have hname : (tokenAt c).run s = .ok ((), v) := by
    rw [tokenAt_plain hinside hbegins (.inl hs.flow) (hs.rest.trans hcs), hv, ← hinline]
    refine keyLike_run hs.places ?_
    rw [run_bind (hk.plainText_run (s := s.saving) hs.flow hs.rest hrest _ _), String.ofList_toList]
    rfl
  have hvplaces : v.places = [(0, s.place)] := by
    rw [hv]
    simp [Scan.pushing, Scan.allowing, Scan.saving, hs.keyAllowed, hs.flow]
  have hvrest : v.rest = ':' :: rest := hv ▸ rfl
  have hfresh : v.IsFresh := by
    intro p hp
    rw [hvplaces, List.mem_singleton] at hp
    have hsize := hk.size
    rw [← String.length_toList] at hsize
    rw [hp, hv]
    exact ⟨rfl, by change s.index + k.toList.length ≤ s.index + 1024; omega⟩
  -- The colon makes a key of it.
  obtain ⟨t, hrun, ht⟩ := valueMark_run (s := v) hopens (hv ▸ hs.flow) (hv ▸ hs.stack) hvplaces
    hs.tokens ⟨hs.column, rfl⟩ (by rw [hv]; rfl) hvrest
  have hvcolumn : v.column = n + k.toList.length := by rw [hv, ← hs.column]; rfl
  have hvinside : v.IsInside := .inl (by rw [hvcolumn]; omega)
  have hvsettled : v.indent ≤ v.column := by
    have : v.indent = s.indent := by rw [hv]; rfl
    rw [this, hvcolumn, ← hs.column]
    push_cast
    omega
  have hcolon : (tokenAt ':').run v = .ok ((), t) := by
    rw [tokenAt_colon hvinside hvrest hrest, hrun]
  refine ⟨t, hvcolumn ▸ ht, fun u hcomes => ?_⟩
  have hturn : Leads v u :=
    .turn hvrest hvsettled hcolon (by rw [ht.rest, hvrest]; exact Nat.lt_succ_self _) hcomes
  have hink : StartsToken (':' :: rest) := ⟨startsInk_cons (by decide) rest, by simp⟩
  refine .turn (hs.rest.trans hcs) hsettled hname ?_
    ((Comes.inline (k := 0) hvrest hink hfresh).trans hturn)
  rw [hvrest, hs.rest]
  simp
  omega

end Opening

end Yaml

end FormDesigner
