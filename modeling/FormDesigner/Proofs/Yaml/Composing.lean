import FormDesigner.Proofs.Yaml.Leaves
import FormDesigner.Proofs.Yaml.Tokens
import FormDesigner.Yaml.Reader

/-!
# The tokens of a layout are put together to the value

Putting tokens together takes the tokens of a value, whatever follows them, and makes the value's
node of them. Only a list that is not indented deeper than its entry goes on for as long as items
follow. The value of that node is the value that was laid out.
-/

namespace FormDesigner

namespace Yaml

/-! ### The node of a value -/

mutual

/-- The node that is read where a value has been written. -/
def nodeOf : Value → Node
  | .list xs => .list .list (nodesOf xs)
  | .map es => .map .map (entryNodes es)
  | v =>
    match leaf? v with
    | .ok (some l) => l.node
    | _ => default

def nodesOf : List Value → List Node
  | [] => []
  | x :: xs => nodeOf x :: nodesOf xs

def entryNodes : List (Value × Value) → List (Node × Node)
  | [] => []
  | (k, v) :: es => (nodeOf k, nodeOf v) :: entryNodes es

end

theorem nodeOf_leaf {v : Value} {l : Leaf} (h : leaf? v = .ok (some l)) : nodeOf v = l.node := by
  cases v with
  | list | map => cases h
  | _ => simp only [nodeOf, h]

theorem nodeOf_text (s : String) : nodeOf (.text s) = .scalar .text s :=
  (nodeOf_leaf rfl).trans (Leaf.node_text s)

theorem nodesOf_eq_map (xs : List Value) : nodesOf xs = xs.map nodeOf := by
  induction xs with
  | nil => rw [nodesOf, List.map_nil]
  | cons x xs ih => rw [nodesOf, ih, List.map_cons]

theorem entryNodes_eq_map (es : Entries) :
    entryNodes es = es.map fun e => (nodeOf e.1, nodeOf e.2) := by
  induction es with
  | nil => rw [entryNodes, List.map_nil]
  | cons e es ih => rw [entryNodes, ih, List.map_cons]

theorem nodeOf_list (xs : List Value) : nodeOf (.list xs) = .list .list (xs.map nodeOf) := by
  rw [nodeOf, nodesOf_eq_map]

theorem nodeOf_map (es : Entries) :
    nodeOf (.map es) = .map .map (es.map fun e => (nodeOf e.1, nodeOf e.2)) := by
  rw [nodeOf, entryNodes_eq_map]

theorem constructAll_map {xs : List Value} (h : ∀ x ∈ xs, construct (nodeOf x) = .ok x) :
    constructAll (xs.map nodeOf) = .ok xs := by
  induction xs with
  | nil => rw [List.map_nil, constructAll]
  | cons x xs ih =>
      obtain ⟨hx, hxs⟩ := List.forall_mem_cons.1 h
      rw [List.map_cons, constructAll, hx, Result.ok_bind, ih hxs]
      rfl

/-- No entry with a text as its key is merged. -/
theorem splitEntries_map {es : Entries} (keys : ∀ e ∈ es, ∃ s, e.1 = .text s)
    (h : ∀ e ∈ es, construct (nodeOf e.2) = .ok e.2) :
    splitEntries (es.map fun e => (nodeOf e.1, nodeOf e.2)) = .ok ([], es) := by
  induction es with
  | nil => rw [List.map_nil, splitEntries]
  | cons e es ih =>
      obtain ⟨k, v⟩ := e
      obtain ⟨⟨s, rfl⟩, hkeys⟩ := List.forall_mem_cons.1 keys
      obtain ⟨hv, hes⟩ := List.forall_mem_cons.1 h
      rw [List.map_cons, splitEntries, nodeOf_text]
      have hkey : constructKey (.scalar .text s) = .ok (.text s) := by
        rw [constructKey, construct]
        · rfl
        · intro t ht
          cases ht
      simp only [tagOf, hkey, Result.ok_bind, hv, ih hkeys hes]
      rfl

/-- What JSON can carry is the value of its node. -/
theorem construct_nodeOf {v : Value} (hv : v.IsJson) : construct (nodeOf v) = .ok v := by
  induction hv with
  | scalar hscalar node =>
      obtain ⟨l, hl, hreads⟩ := exists_leaf node
      rw [nodeOf_leaf hl]
      exact hreads.value
  | list _ ih =>
      rw [nodeOf_list, construct, constructAll_map ih]
      rfl
  | tuple node => cases node
  | set node => cases node
  | map names keys values ih =>
      rw [nodeOf_map, construct, entries, splitEntries_map keys ih]
      exact congrArg (fun es => Except.ok (Value.map es)) (Entries.insertAll_of_nodup names keys)

/-! ### Taking tokens -/

/-- The assembly with other tokens left. -/
def Assembly.leaving (s : Assembly) (ts : List Token) : Assembly := { s with rest := ts }

/-- An assembler takes some tokens and gives a result, whatever tokens follow, as long as the first
of these is allowed. -/
def Takes {α : Type} (x : Assembler α) (ts : List Token) (next : Option Token → Prop) (a : α) :
    Prop :=
  ∀ (s : Assembly) (rest : List Token), s.times = false → s.rest = ts ++ rest → next rest.head? →
    x.run s = .ok (a, s.leaving rest)

/-- Whatever follows. -/
abbrev Anything : Option Token → Prop := fun _ => True

namespace Takes

variable {α β : Type} {x : Assembler α} {f : α → Assembler β} {a : α} {b : β}
  {ts us : List Token} {next next' : Option Token → Prop}

theorem pure (a : α) : Takes (Pure.pure a) [] Anything a := by
  intro s rest _ hs _
  rw [← show s.rest = rest from hs]
  rfl

theorem bind (hx : Takes x ts next a) (hf : Takes (f a) us next' b)
    (h : ∀ rest : List Token, next' rest.head? → next (us ++ rest).head?) :
    Takes (x >>= f) (ts ++ us) next' b := by
  intro s rest htimes hs hnext
  rw [run_bind (hx s (us ++ rest) htimes (by rw [hs, List.append_assoc]) (h rest hnext))]
  exact hf (s.leaving (us ++ rest)) rest htimes rfl hnext

/-- With a last step that takes nothing. -/
theorem last (hx : Takes x ts next a) (hf : f a = Pure.pure b) : Takes (x >>= f) ts next b := by
  intro s rest htimes hs hnext
  rw [run_bind (hx s rest htimes hs hnext), hf]
  rfl

theorem congr (h : Takes x ts next a) (hts : ts = us) : Takes x us next a := hts ▸ h

theorem mono (h : Takes x ts next a) (hnext : ∀ t, next' t → next t) : Takes x ts next' a :=
  fun s rest htimes hs hrest => h s rest htimes hs (hnext _ hrest)

end Takes

namespace Assembler

variable {t : Token}

theorem peek_run (s : Assembly) : peek.run s = .ok (s.rest.head?, s) := rfl

theorem takes_drop (t : Token) : Takes drop [t] Anything () := by
  intro s rest _ hs _
  change Except.ok ((), s.leaving (s.rest.drop 1)) = _
  rw [hs]
  rfl

theorem takes_takes (t : Token) : Takes (takes t) [t] Anything true := by
  intro s rest htimes hs hnext
  have hhead : s.rest.head? = some t := by rw [hs]; rfl
  rw [takes, run_bind (peek_run s), if_pos hhead]
  exact run_bind (takes_drop t s rest htimes hs hnext)

/-- Another token is left where it is. -/
theorem takes_none (t : Token) : Takes (takes t) [] (· ≠ some t) false := by
  intro s rest htimes hs hnext
  rw [takes, run_bind (peek_run s), show s.rest = rest from hs, if_neg hnext]
  exact Takes.pure false s rest htimes hs trivial

theorem takes_expects (t : Token) : Takes (expects t) [t] Anything () :=
  (takes_takes t).last rfl

theorem takes_sees (ts : List Token) (b : Bool) :
    Takes (sees ts) [] (fun t => t.any ts.contains = b) b := by
  intro s rest htimes hs hnext
  obtain rfl : rest.head?.any ts.contains = b := hnext
  obtain rfl : s.rest = rest := hs
  rw [sees, run_bind (peek_run s)]
  rfl

variable {s : Assembly} {rest : List Token} {fuel : Nat} {indentless : Bool}

/-- The node that begins with a token, without a name and without a tag. -/
def bareNode (fuel : Nat) : Token → Assembler Node
  | .scalar text plain => do
    drop
    let times := (← get).times
    return .scalar (if plain then plainTag times text else .text) text
  | .flowSequence => do
    drop
    return .list .list (← flowItems fuel true)
  | .flowMapping => do
    drop
    return .map .map (← flowEntries fuel true)
  | .blockEntry => return .list .list (← indentlessItems fuel)
  | .blockSequence => do
    drop
    return .list .list (← blockItems fuel)
  | .blockMapping => do
    drop
    return .map .map (← blockEntries fuel)
  | _ => fail

/-- What a node without a name and without a tag can begin with. -/
def IsOpening : Token → Prop
  | .scalar .. | .flowSequence | .flowMapping | .blockSequence | .blockMapping | .blockEntry => True
  | _ => False

theorem properties_run (h : s.rest = t :: rest) (ht : IsOpening t) :
    properties.run s = .ok ((none, none), s) := by
  have hpeek : peek.run s = .ok (some t, s) := by rw [peek_run, h]; rfl
  rw [properties]
  cases t with
  | scalar | flowSequence | flowMapping | blockSequence | blockMapping | blockEntry =>
      simp only [bind_assoc]
      rw [run_bind hpeek]
      dsimp only
      rw [pure_bind]
      dsimp only
      rw [run_bind hpeek]
      rfl
  | _ => exact False.elim ht

theorem node_run {block : Bool} (h : s.rest = t :: rest) (ht : IsOpening t)
    (hblock : t = .blockSequence ∨ t = .blockMapping → block = true)
    (hlist : t = .blockEntry → indentless = true) :
    (node (fuel + 1) block indentless).run s = (bareNode fuel t).run s := by
  have hpeek : peek.run s = .ok (some t, s) := by rw [peek_run, h]; rfl
  have hproperties := properties_run h ht
  rw [node, run_bind hpeek]
  cases t with
  | scalar | flowSequence | flowMapping | blockSequence | blockMapping | blockEntry =>
      dsimp only
      rw [run_bind hproperties]
      dsimp only
      rw [announce, pure_bind, run_bind hpeek]
      simp only [hblock, hlist, Option.some.injEq, reduceCtorEq, decide_false, decide_true,
        Bool.and_false, Bool.and_self, Bool.false_eq_true, or_true, true_or, if_false, if_true]
      rfl
  | _ => exact False.elim ht

end Assembler

open Assembler

/-! ### The tokens of a node -/

/-- Tokens are those of a value that stands in a list or in an entry. -/
structure AreNode (entry : Bool) (ts : List Token) (n : Node) : Prop where
  head : ∃ t us, ts = t :: us ∧ IsOpening t ∧ (t = .blockEntry → entry = true)
  takes : ∀ fuel, 3 * ts.length + 1 < fuel →
    Takes (node fuel true entry) ts (fun t => entry = true → t ≠ some .blockEntry) n

/-- Tokens are those of the items of a list, however it is indented. -/
structure AreItems (ts : List Token) (ns : List Node) : Prop where
  block : ∀ fuel, 3 * ts.length < fuel → Takes (blockItems fuel) (ts ++ [.blockEnd]) Anything ns
  indentless : ∀ fuel, 3 * ts.length < fuel →
    Takes (indentlessItems fuel) ts (· ≠ some .blockEntry) ns

/-- Tokens are those of the entries of a mapping. -/
structure AreEntries (ts : List Token) (ns : List (Node × Node)) : Prop where
  head : ts.head? ≠ some .blockEntry
  block : ∀ fuel, 3 * ts.length < fuel → Takes (blockEntries fuel) (ts ++ [.blockEnd]) Anything ns

section Cases

variable {entry : Bool} {ts us : List Token} {n : Node} {ns : List Node} {es : List (Node × Node)}

theorem exists_succ_of_lt {m fuel : Nat} (h : m < fuel) : ∃ k, fuel = k + 1 ∧ m ≤ k :=
  ⟨fuel - 1, by omega, by omega⟩

/-- A node is read from its first token on. -/
theorem areNode_of_bareNode {t : Token} (ht : IsOpening t) (hlist : t = .blockEntry → entry = true)
    (h : ∀ fuel, 3 * us.length + 3 < fuel →
      Takes (bareNode fuel t) (t :: us) (fun t => entry = true → t ≠ some .blockEntry) n) :
    AreNode entry (t :: us) n := by
  refine ⟨⟨t, us, rfl, ht, hlist⟩, fun fuel hfuel s rest htimes hs hnext => ?_⟩
  rw [List.length_cons] at hfuel
  obtain ⟨k, rfl, hk⟩ := exists_succ_of_lt hfuel
  rw [node_run hs ht (fun _ => rfl) hlist]
  exact h k hk s rest htimes hs hnext

theorem takes_bareScalar (fuel : Nat) (text : String) (plain : Bool) :
    Takes (bareNode fuel (.scalar text plain)) [.scalar text plain] Anything
      (.scalar (if plain then plainTag false text else .text) text) := by
  have htag : Takes (do
      let times := (← get).times
      return Node.scalar (if plain then plainTag times text else .text) text) [] Anything
      (.scalar (if plain then plainTag false text else .text) text) := by
    intro s rest htimes hs _
    obtain rfl : s.rest = rest := hs
    rw [run_get_bind, htimes]
    rfl
  exact (takes_drop _).bind htag fun _ _ => trivial

theorem areNode_scalar (entry : Bool) (text : String) (plain : Bool) :
    AreNode entry [.scalar text plain]
      (.scalar (if plain then plainTag false text else .text) text) :=
  areNode_of_bareNode trivial nofun fun fuel _ =>
    (takes_bareScalar fuel text plain).mono fun _ _ => trivial

/-- A collection between the tokens of its start and its end. -/
theorem areNode_between {α : Type} {t : Token} {body : Nat → Assembler α} {build : α → Node} {a : α}
    (ht : IsOpening t) (hlist : t ≠ .blockEntry)
    (hbare : ∀ fuel, bareNode fuel t = drop >>= fun _ => body fuel >>= fun a => pure (build a))
    (hbody : ∀ fuel, 3 * us.length + 3 < fuel → Takes (body fuel) us Anything a) :
    AreNode entry (t :: us) (build a) := by
  refine areNode_of_bareNode ht (fun h => absurd h hlist) fun fuel hfuel => ?_
  rw [hbare]
  exact (takes_drop _).bind (((hbody fuel hfuel).mono fun _ _ => trivial).last rfl)
    fun _ _ => trivial

theorem areNode_emptyList : AreNode entry [.flowSequence, .flowSequenceEnd] (.list .list []) := by
  refine areNode_between trivial nofun (fun _ => rfl) fun fuel hfuel => ?_
  obtain ⟨k, rfl, -⟩ := exists_succ_of_lt hfuel
  rw [flowItems]
  exact (takes_takes _).last rfl

theorem areNode_emptyMap : AreNode entry [.flowMapping, .flowMappingEnd] (.map .map []) := by
  refine areNode_between trivial nofun (fun _ => rfl) fun fuel hfuel => ?_
  obtain ⟨k, rfl, -⟩ := exists_succ_of_lt hfuel
  rw [flowEntries]
  exact (takes_takes _).last rfl

theorem AreItems.ofEntry (h : AreItems ts ns) (hhead : ∃ us, ts = .blockEntry :: us) :
    AreNode true ts (.list .list ns) := by
  obtain ⟨us, rfl⟩ := hhead
  refine areNode_of_bareNode trivial (fun _ => rfl) fun fuel hfuel => ?_
  exact ((h.indentless fuel (by rw [List.length_cons]; omega)).mono fun t ht => ht rfl).last rfl

theorem AreItems.deeper (h : AreItems ts ns) :
    AreNode entry (.blockSequence :: ts ++ [.blockEnd]) (.list .list ns) := by
  refine areNode_between trivial nofun (fun _ => rfl) fun fuel hfuel => h.block fuel ?_
  rw [List.append_eq, List.length_append] at hfuel
  omega

theorem AreEntries.deeper (h : AreEntries ts es) :
    AreNode entry (.blockMapping :: ts ++ [.blockEnd]) (.map .map es) := by
  refine areNode_between trivial nofun (fun _ => rfl) fun fuel hfuel => h.block fuel ?_
  rw [List.append_eq, List.length_append] at hfuel
  omega

/-- A node that is not left out. What ends lists and mappings begins no node. -/
theorem AreNode.unless (h : AreNode entry ts n) {ends : List Token}
    (hends : ∀ t ∈ ends, IsOpening t → t = .blockEntry ∧ entry = false) {fuel : Nat}
    (hfuel : 3 * ts.length + 2 < fuel) :
    Takes (nodeUnless fuel ends true entry) ts
      (fun t => entry = true → t ≠ some .blockEntry) n := by
  obtain ⟨k, rfl, hk⟩ := exists_succ_of_lt hfuel
  obtain ⟨t, us, rfl, ht, hlist⟩ := h.head
  refine (takes_sees ends false).bind (h.takes k hk) fun rest _ => ?_
  change ends.contains t = false
  rw [List.contains_eq_mem, decide_eq_false_iff_not]
  intro hmem
  obtain ⟨hentry, hfalse⟩ := hends t hmem ht
  rw [hlist hentry] at hfalse
  cases hfalse

theorem areItems_nil : AreItems [] [] := by
  refine ⟨fun fuel hfuel => ?_, fun fuel hfuel => ?_⟩
  · obtain ⟨k, rfl, -⟩ := exists_succ_of_lt hfuel
    rw [blockItems]
    exact (takes_none _).bind ((takes_expects _).last rfl) fun _ _ => nofun
  · obtain ⟨k, rfl, -⟩ := exists_succ_of_lt hfuel
    rw [indentlessItems]
    exact (takes_none _).last rfl

theorem areEntries_nil : AreEntries [] [] := by
  refine ⟨nofun, fun fuel hfuel => ?_⟩
  obtain ⟨k, rfl, -⟩ := exists_succ_of_lt hfuel
  rw [blockEntries]
  exact (takes_none _).bind ((takes_expects _).last rfl) fun _ _ => nofun

/-- The hyphen of an item and its node, before the items that follow. -/
theorem AreNode.takes_item (h : AreNode false ts n) {ends : List Token}
    (hends : ∀ t ∈ ends, IsOpening t → t = .blockEntry) {fuel : Nat}
    (hfuel : 3 * ts.length + 2 < fuel) {items other : Assembler (List Node)}
    {next : Option Token → Prop} (hitems : Takes items us next ns) :
    Takes (do
      if ← Assembler.takes .blockEntry then
        let n ← nodeUnless fuel ends true false
        return n :: (← items)
      else other) (.blockEntry :: ts ++ us) next (n :: ns) := by
  have hnode : Takes (nodeUnless fuel ends true false) ts Anything n :=
    (h.unless (fun t ht hopening => ⟨hends t ht hopening, rfl⟩) hfuel).mono fun _ _ => nofun
  exact (takes_takes .blockEntry).bind (hnode.bind (hitems.last rfl) fun _ _ => trivial)
    fun _ _ => trivial

theorem AreItems.cons (hrest : AreItems us ns) (h : AreNode false ts n) :
    AreItems (.blockEntry :: ts ++ us) (n :: ns) := by
  have hsize : (Token.blockEntry :: ts ++ us).length = ts.length + us.length + 1 := by simp
  refine ⟨fun fuel hfuel => ?_, fun fuel hfuel => ?_⟩
  · obtain ⟨k, rfl, hk⟩ := exists_succ_of_lt hfuel
    rw [blockItems, List.append_assoc]
    exact h.takes_item (by simp [IsOpening]) (by omega) (hrest.block k (by omega))
  · obtain ⟨k, rfl, hk⟩ := exists_succ_of_lt hfuel
    rw [indentlessItems]
    exact h.takes_item (by simp [IsOpening]) (by omega) (hrest.indentless k (by omega))

theorem AreNode.item (h : AreNode false ts n) : AreItems (.blockEntry :: ts) [n] := by
  simpa using areItems_nil.cons h

theorem AreEntries.cons (hrest : AreEntries us es) (name : String) (h : AreNode true ts n) :
    AreEntries (.key :: .scalar name true :: .value :: ts ++ us)
      ((.scalar (plainTag false name) name, n) :: es) := by
  refine ⟨nofun, fun fuel hfuel => ?_⟩
  obtain ⟨k, rfl, hk⟩ := exists_succ_of_lt hfuel
  have hsize : (Token.key :: .scalar name true :: .value :: ts ++ us).length =
      ts.length + us.length + 3 := by simp
  have hends : ∀ t ∈ [Token.key, .value, .blockEnd], IsOpening t → t = .blockEntry ∧ true = false :=
    by simp [IsOpening]
  have hkey := (areNode_scalar true name true).unless hends
    (show 3 * [Token.scalar name true].length + 2 < k by simp; omega)
  have hvalue := h.unless hends (show 3 * ts.length + 2 < k by omega)
  have hentries := hrest.block k (by omega)
  have hnext : ∀ rest : List Token, (us ++ [Token.blockEnd] ++ rest).head? ≠ some .blockEntry := by
    intro rest
    have hhead := hrest.head
    cases us with
    | nil => simp
    | cons t us => exact hhead
  rw [blockEntries]
  refine ((takes_takes _).bind (hkey.bind ((takes_takes _).bind
    (hvalue.bind (hentries.last ?_) fun rest _ _ => hnext rest) fun _ _ => trivial) nofun)
      fun _ _ => trivial).congr ?_
  · rfl
  · simp

end Cases

theorem LaysItems.tokens_head {n : Nat} {xs : List Value} {cs : List Char} {ts : List Token}
    (h : LaysItems n xs cs ts) : ∃ us, ts = .blockEntry :: us := by
  cases h with
  | one => exact ⟨_, rfl⟩
  | more => exact ⟨_, rfl⟩

theorem areNode_leaf {entry : Bool} {v : Value} {l : Leaf} (h : leaf? v = .ok (some l)) :
    AreNode entry [.scalar l.text (l.quotes = .plain)] (nodeOf v) := by
  rw [nodeOf_leaf h, Leaf.node]
  simpa using areNode_scalar entry l.text (l.quotes = .plain)

theorem AreEntries.keyed {k : String} (hk : IsName k) {v : Value} {es : Entries}
    {ts us : List Token} (hrest : AreEntries us (es.map fun e => (nodeOf e.1, nodeOf e.2)))
    (h : AreNode true ts (nodeOf v)) :
    AreEntries (.key :: .scalar k true :: .value :: ts ++ us)
      (((.text k, v) :: es).map fun e => (nodeOf e.1, nodeOf e.2)) := by
  have htag : plainTag false k = .text := by
    rw [plainTag_without_times (by rw [hk.tag]; decide), hk.tag]
  have := hrest.cons k h
  rw [htag] at this
  rwa [List.map_cons, nodeOf_text]

theorem AreNode.entry {k : String} (hk : IsName k) {v : Value} {ts : List Token}
    (h : AreNode true ts (nodeOf v)) :
    AreEntries (.key :: .scalar k true :: .value :: ts)
      ([(.text k, v)].map fun e => (nodeOf e.1, nodeOf e.2)) := by
  have hnil : AreEntries [] (([] : Entries).map fun e => (nodeOf e.1, nodeOf e.2)) := areEntries_nil
  simpa using hnil.keyed hk h

mutual

/-- The tokens of a layout are those of the value's node. -/
theorem Lays.areNode : ∀ {entry : Bool} {n : Nat} {v : Value} {cs : List Char} {ts : List Token},
    Lays entry n v cs ts → AreNode entry ts (nodeOf v)
  | _, _, _, _, _, .leaf hl _ _ _ => areNode_leaf hl
  | _, _, _, _, _, .emptyList => nodeOf_list _ ▸ areNode_emptyList
  | _, _, _, _, _, .emptyMap => nodeOf_map _ ▸ areNode_emptyMap
  | _, _, _, _, _, .listOfEntry items => nodeOf_list _ ▸ items.areItems.ofEntry items.tokens_head
  | _, _, _, _, _, .listOfItem items => nodeOf_list _ ▸ items.areItems.deeper
  | _, _, _, _, _, .mapOfEntry entries => nodeOf_map _ ▸ entries.areEntries.deeper
  | _, _, _, _, _, .mapOfItem entries => nodeOf_map _ ▸ entries.areEntries.deeper

theorem LaysItems.areItems : ∀ {n : Nat} {xs : List Value} {cs : List Char} {ts : List Token},
    LaysItems n xs cs ts → AreItems ts (xs.map nodeOf)
  | _, _, _, _, .one item => item.areNode.item
  | _, _, _, _, .more item rest => rest.areItems.cons item.areNode

theorem LaysEntries.areEntries : ∀ {n : Nat} {es : Entries} {cs : List Char} {ts : List Token},
    LaysEntries n es cs ts → AreEntries ts (es.map fun e => (nodeOf e.1, nodeOf e.2))
  | _, _, _, _, .one name value => value.areNode.entry name
  | _, _, _, _, .more name value rest => rest.areEntries.keyed name value.areNode

end

/-! ### The document -/

theorem documentEnds_run {s : Assembly} (h : s.rest = []) (fuel : Nat) :
    (documentEnds fuel).run s = .ok ((), s) := by
  have hhere : s.leaving [] = s := by rw [← h]; rfl
  cases fuel with
  | zero => rfl
  | succ fuel =>
      have htakes : (takes .documentEnd).run s = .ok (false, s) := by
        rw [takes, run_bind (Assembler.peek_run s), if_neg (by rw [h]; nofun)]
        rfl
      rw [documentEnds, run_bind htakes]
      rfl

/-- A node that makes up a document. -/
theorem document_run {ts : List Token} {n : Node} (h : AreNode false ts n) {fuel : Nat}
    (hfuel : 3 * ts.length + 1 < fuel) :
    (document fuel).run ⟨ts, [], [], false⟩ = .ok (some n, ⟨[], standardHandles, [], false⟩) := by
  have hnode := h.takes fuel hfuel ⟨ts, standardHandles, [], false⟩ []
    rfl (List.append_nil _).symm nofun
  obtain ⟨t, us, rfl, ht, -⟩ := h.head
  rw [document, run_bind (Assembler.peek_run _)]
  dsimp only [List.head?_cons]
  cases t with
  | scalar | flowSequence | flowMapping | blockSequence | blockMapping | blockEntry =>
      rw [if_neg Bool.false_ne_true, run_modify_bind, run_bind hnode,
        run_bind (documentEnds_run rfl fuel), run_bind (Assembler.peek_run _)]
      rfl
  | _ => exact ht.elim

/-- A text is read as the value whose tokens it is split into. -/
theorem read_of_tokens {s : String} {ts : List Token} {v : Value} (hts : tokens s = .ok ts)
    (h : AreNode false ts (nodeOf v)) (hv : v.IsJson) : read false s = .ok v := by
  have hrun := document_run h (show 3 * ts.length + 1 < 4 * ts.length + 8 by omega)
  have hread : Node.read false s = .ok (some (nodeOf v)) := by
    rw [StateT.run] at hrun
    rw [Node.read, hts, Result.ok_bind, StateT.run', hrun]
    rfl
  rw [read, hread, Result.ok_bind]
  exact construct_nodeOf hv

/-- A document is read as the mapping that was laid out. -/
theorem read_of_layout {es : Entries} {cs : List Char} {ts : List Token}
    (h : LaysEntries 0 es cs ts) (hes : (Value.map es).IsJson) :
    read false (String.ofList (cs ++ ['\n'])) = .ok (.map es) :=
  read_of_tokens (tokens_of_layout h) (nodeOf_map es ▸ h.areEntries.deeper) hes

end Yaml

end FormDesigner
