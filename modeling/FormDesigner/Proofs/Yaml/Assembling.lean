import FormDesigner.Proofs.Yaml.Scanning
import FormDesigner.Yaml.Node

/-!
# Where the nodes of YAML come from

Tokens are put together to nodes or are malformed. Without an exclamation mark in the text, no node
has a tag but the one that its own form gives it.
-/

namespace FormDesigner

namespace Yaml

open Stateful

/-- The tag of a scalar that is not given one. -/
def IsOwnTag (times : Bool) (tag : Tag) (t : String) : Prop :=
  tag = .text ∨ tag = plainTag times t ∧ t.toList.getLast? ≠ some '\n'

/-- A node of a text: a tag that is not its own needs an exclamation mark. -/
inductive Node.IsOf (times : Bool) (text : List Char) : Node → Prop
  | scalar {tag : Tag} {t : String} (own : '!' ∈ text ∨ IsOwnTag times tag t) :
      IsOf times text (.scalar tag t)
  | list {tag : Tag} {ns : List Node} (own : '!' ∈ text ∨ tag = .list)
      (items : ∀ n ∈ ns, n.IsOf times text) : IsOf times text (.list tag ns)
  | map {tag : Tag} {es : List (Node × Node)} (own : '!' ∈ text ∨ tag = .map)
      (keys : ∀ e ∈ es, e.1.IsOf times text) (values : ∀ e ∈ es, e.2.IsOf times text) :
      IsOf times text (.map tag es)

/-- Assembling has come to some place of a text. -/
structure Assembly.IsOf (times : Bool) (text : List Char) (s : Assembly) : Prop where
  tokens : ∀ t ∈ s.rest, t.IsOf text
  names : ∀ name n, (name, some n) ∈ s.names → n.IsOf times text
  times : s.times = times

/-- An assembler goes on through a text. -/
abbrev Assembles {α : Type} (times : Bool) (text : List Char) (x : Assembler α) (P : α → Prop) :
    Prop :=
  Keeps (· = malformed) (Assembly.IsOf times text) x P

namespace Assembler

variable {times : Bool} {text : List Char} {α : Type} {P : α → Prop}

theorem fail_assembles : Assembles times text (fail : Assembler α) P := keeps_throw rfl

theorem peek_assembles : Assembles times text peek fun t => ∀ u, t = some u → u.IsOf text :=
  keeps_get.bind fun _ hs => keeps_pure fun u hu => hs.tokens u (List.mem_of_head? hu)

theorem drop_assembles : Assembles times text drop fun _ => True :=
  keeps_modify fun _ hs =>
    ⟨fun t ht => hs.tokens t (List.mem_of_mem_drop ht), hs.names, hs.times⟩

theorem takes_assembles (t : Token) : Assembles times text (takes t) fun _ => True :=
  peek_assembles.next fun _ => .ite
    (fun _ => drop_assembles.next fun _ => keeps_pure trivial) fun _ => keeps_pure trivial

theorem expects_assembles (t : Token) : Assembles times text (expects t) fun _ => True :=
  (takes_assembles t).next fun _ => .ite (fun _ => fail_assembles) fun _ => keeps_pure trivial

theorem sees_assembles (ts : List Token) : Assembles times text (sees ts) fun _ => True :=
  peek_assembles.next fun _ => keeps_pure trivial

theorem emptyNode_isOf : emptyNode.IsOf times text :=
  .scalar (.inr (.inr ⟨by cases times <;> decide, nofun⟩))

theorem announce_assembles (name : Option String) :
    Assembles times text (announce name) fun _ => True := by
  cases name with
  | none => exact keeps_pure trivial
  | some name =>
      refine keeps_get.next fun _ => .ite (fun _ => fail_assembles.bind fun _ h => False.elim h)
        fun _ => keeps_modify fun _ hs => ⟨hs.tokens, fun name n h => ?_, hs.times⟩
      exact hs.names name n ((List.mem_cons.1 h).resolve_left nofun)

theorem finish_assembles (name : Option String) {n : Node} (hn : n.IsOf times text) :
    Assembles times text (finish name n) (Node.IsOf times text) := by
  cases name with
  | none => exact keeps_pure hn
  | some name =>
      refine .next (keeps_modify fun _ hs => ⟨hs.tokens, fun name m h => ?_, hs.times⟩)
        fun _ => keeps_pure hn
      rcases List.mem_cons.1 h with h | h
      · exact Option.some.inj (Prod.mk.inj h).2 ▸ hn
      · exact hs.names name m h

theorem fullTag_assembles (handle : Option String) (rest : String) :
    Assembles times text (fullTag handle rest) fun _ => True := by
  cases handle with
  | none => exact keeps_pure trivial
  | some h =>
      refine keeps_get.next fun _ => ?_
      split
      · exact keeps_pure trivial
      · exact fail_assembles

/-- A node is given a tag only by an exclamation mark. -/
theorem properties_assembles :
    Assembles times text properties fun r => r.2 ≠ none → '!' ∈ text := by
  unfold properties
  extract_lets name? tag?
  have hname : Assembles times text name? fun _ => True := by
    refine peek_assembles.next fun t => ?_
    split
    · exact drop_assembles.next fun _ => keeps_pure trivial
    · exact keeps_pure trivial
  have htag : Assembles times text tag? fun r => r ≠ none → '!' ∈ text := by
    refine peek_assembles.bind fun t ht => ?_
    split
    · have hmark := ht _ rfl
      exact drop_assembles.next fun _ => (fullTag_assembles _ _).next fun _ =>
        keeps_pure fun _ => hmark
    · exact keeps_pure fun h => absurd rfl h
  refine hname.next fun a => ?_
  split
  · exact htag.bind fun t ht => keeps_pure ht
  · refine htag.bind fun t ht => ?_
    split
    · exact hname.next fun _ => keeps_pure ht
    · exact keeps_pure fun h => absurd rfl h

theorem scalarTag_assembles {tag : Option String} {plain : Bool} {t : String}
    (hmark : tag ≠ none → '!' ∈ text) (hplain : plain = true → t.toList.getLast? ≠ some '\n') :
    Assembles times text (scalarTag tag plain t) fun u => '!' ∈ text ∨ IsOwnTag times u t := by
  refine keeps_get.bind fun s hs => ?_
  cases tag with
  | none =>
      refine keeps_pure (.inr ?_)
      cases plain with
      | false => exact .inl rfl
      | true => exact .inr ⟨by rw [hs.times]; rfl, hplain rfl⟩
  | some u => exact keeps_pure (.inl (hmark nofun))

theorem collectionTag_cases {tag : Option String} (hmark : tag ≠ none → '!' ∈ text)
    (standard : Tag) : '!' ∈ text ∨ collectionTag tag standard = standard := by
  cases tag with
  | none => exact .inr rfl
  | some u => exact .inl (hmark nofun)

/-- Entries whose keys and values are nodes of a text. -/
def AllOf (times : Bool) (text : List Char) (es : List (Node × Node)) : Prop :=
  ∀ e ∈ es, e.1.IsOf times text ∧ e.2.IsOf times text

theorem map_isOf {tag : Tag} {es : List (Node × Node)} (own : '!' ∈ text ∨ tag = .map)
    (hes : AllOf times text es) : (Node.map tag es).IsOf times text :=
  .map own (fun e he => (hes e he).1) fun e he => (hes e he).2

/-- What the assemblers of nodes and of their parts give. -/
structure AssemblesNodes (times : Bool) (text : List Char) (fuel : Nat) : Prop where
  node : ∀ block indentless,
    Assembles times text (node fuel block indentless) (Node.IsOf times text)
  nodeUnless : ∀ ends block indentless,
    Assembles times text (nodeUnless fuel ends block indentless) (Node.IsOf times text)
  blockItems : Assembles times text (blockItems fuel) fun ns => ∀ n ∈ ns, n.IsOf times text
  indentlessItems :
    Assembles times text (indentlessItems fuel) fun ns => ∀ n ∈ ns, n.IsOf times text
  blockEntries : Assembles times text (blockEntries fuel) (AllOf times text)
  flowItems : ∀ first,
    Assembles times text (flowItems fuel first) fun ns => ∀ n ∈ ns, n.IsOf times text
  flowEntries : ∀ first, Assembles times text (flowEntries fuel first) (AllOf times text)

variable {fuel : Nat}

theorem AssemblesNodes.node_succ (h : AssemblesNodes times text fuel) (block indentless : Bool) :
    Assembles times text (Assembler.node (fuel + 1) block indentless) (Node.IsOf times text) := by
  rw [Assembler.node]
  refine peek_assembles.next fun t => ?_
  split
  · refine drop_assembles.next fun _ => keeps_get.bind fun s hs => ?_
    split
    · next hlookup =>
      obtain ⟨before, after, hnames, -⟩ := List.lookup_eq_some_iff.1 hlookup
      exact keeps_pure (hs.names _ _ (hnames ▸ List.mem_append_right _ List.mem_cons_self))
    · exact fail_assembles
  refine properties_assembles.bind fun r hmark => ?_
  obtain ⟨name, tag⟩ := r
  refine (announce_assembles name).next fun _ => peek_assembles.bind fun t ht => ?_
  have finishList : ∀ {x : Assembler (List Node)},
      Assembles times text x (fun ns => ∀ n ∈ ns, n.IsOf times text) → Assembles times text (do
        finish name (.list (collectionTag tag .list) (← x))) (Node.IsOf times text) := fun hx =>
    hx.bind fun ns hns => finish_assembles name (.list (collectionTag_cases hmark .list) hns)
  have finishMap : ∀ {x : Assembler (List (Node × Node))},
      Assembles times text x (AllOf times text) → Assembles times text (do
        finish name (.map (collectionTag tag .map) (← x))) (Node.IsOf times text) := fun hx =>
    hx.bind fun es hes => finish_assembles name (map_isOf (collectionTag_cases hmark .map) hes)
  split
  · next t plain =>
    refine drop_assembles.next fun _ => (scalarTag_assembles hmark fun hplain => ?_).bind
      fun u hu => finish_assembles name (.scalar hu)
    subst hplain
    exact ht _ rfl
  · exact drop_assembles.next fun _ => finishList (h.flowItems true)
  · exact drop_assembles.next fun _ => finishMap (h.flowEntries true)
  · refine .ite (fun _ => finishList h.indentlessItems) fun _ =>
      .ite (fun _ => drop_assembles.next fun _ => finishList h.blockItems) fun _ =>
      .ite (fun _ => drop_assembles.next fun _ => finishMap h.blockEntries) fun _ =>
      .ite (fun _ => ?_) fun _ => fail_assembles
    exact (scalarTag_assembles hmark fun _ => by decide).bind fun u hu =>
      finish_assembles name (.scalar hu)

/-- An entry whose value may be left out. -/
theorem AssemblesNodes.entry (h : AssemblesNodes times text fuel)
    {more : Assembler (List (Node × Node))} (hmore : Assembles times text more (AllOf times text))
    (keyEnds ends : List Token) (block : Bool) :
    Assembles times text (do
      let k ← Assembler.nodeUnless fuel keyEnds block block
      let v ←
        if ← takes .value then Assembler.nodeUnless fuel ends block block
        else pure emptyNode
      return (k, v) :: (← more)) (AllOf times text) := by
  refine (h.nodeUnless keyEnds block block).bind fun k hk => (takes_assembles _).next fun b => ?_
  have ending : ∀ v : Node, v.IsOf times text →
      Assembles times text (do return (k, v) :: (← more)) (AllOf times text) := fun v hv =>
    hmore.bind fun es hes => keeps_pure (List.forall_mem_cons.2 ⟨⟨hk, hv⟩, hes⟩)
  exact .ite (fun _ => (h.nodeUnless ends block block).bind ending)
    fun _ => ending _ emptyNode_isOf

/-- A node in front of others. -/
theorem items_assembles {x : Assembler Node} {more : Assembler (List Node)}
    (hx : Assembles times text x (Node.IsOf times text))
    (hmore : Assembles times text more fun ns => ∀ n ∈ ns, n.IsOf times text) :
    Assembles times text (do return (← x) :: (← more)) fun ns => ∀ n ∈ ns, n.IsOf times text :=
  hx.bind fun _ hn => hmore.bind fun _ hns => keeps_pure (List.forall_mem_cons.2 ⟨hn, hns⟩)

/-- An item of a flow list: a mapping of one entry, where it begins like one, or a node. -/
theorem AssemblesNodes.flowItem (h : AssemblesNodes times text fuel) :
    Assembles times text (do
      if ← takes .key then
        let k ← Assembler.nodeUnless fuel [.value, .flowEntry, .flowSequenceEnd] false false
        let v ←
          if ← takes .value then
            Assembler.nodeUnless fuel [.flowEntry, .flowSequenceEnd] false false
          else pure emptyNode
        return .map .map [(k, v)] :: (← Assembler.flowItems fuel false)
      else if ← takes .flowSequenceEnd then return []
      else
        let n ← Assembler.node fuel false false
        return n :: (← Assembler.flowItems fuel false))
      fun ns => ∀ n ∈ ns, n.IsOf times text := by
  refine (takes_assembles _).next fun _ => .ite (fun _ => ?_) fun _ =>
    (takes_assembles _).next fun _ => .ite (fun _ => keeps_pure (List.forall_mem_nil _))
      fun _ => items_assembles (h.node _ _) (h.flowItems false)
  refine (h.nodeUnless _ _ _).bind fun k hk => (takes_assembles _).next fun _ => ?_
  have single : ∀ v : Node, v.IsOf times text → Assembles times text (do
      return .map .map [(k, v)] :: (← Assembler.flowItems fuel false))
      (fun ns => ∀ n ∈ ns, n.IsOf times text) := fun v hv =>
    items_assembles (keeps_pure (map_isOf (.inr rfl) (List.forall_mem_singleton.2 ⟨hk, hv⟩)))
      (h.flowItems false)
  exact .ite (fun _ => (h.nodeUnless _ _ _).bind single) fun _ => single _ emptyNode_isOf

/-- An entry of a flow mapping, which may be a key alone. -/
theorem AssemblesNodes.flowEntry (h : AssemblesNodes times text fuel) :
    Assembles times text (do
      if ← takes .key then
        let k ← Assembler.nodeUnless fuel [.value, .flowEntry, .flowMappingEnd] false false
        let v ←
          if ← takes .value then
            Assembler.nodeUnless fuel [.flowEntry, .flowMappingEnd] false false
          else pure emptyNode
        return (k, v) :: (← Assembler.flowEntries fuel false)
      else if ← takes .flowMappingEnd then return []
      else
        let k ← Assembler.node fuel false false
        return (k, emptyNode) :: (← Assembler.flowEntries fuel false)) (AllOf times text) := by
  refine (takes_assembles _).next fun _ => .ite
    (fun _ => h.entry (h.flowEntries false) _ _ false) fun _ => (takes_assembles _).next fun _ =>
      .ite (fun _ => keeps_pure (List.forall_mem_nil _)) fun _ => ?_
  exact (h.node _ _).bind fun k hk => (h.flowEntries false).bind fun es hes =>
    keeps_pure (List.forall_mem_cons.2 ⟨⟨hk, emptyNode_isOf⟩, hes⟩)

theorem AssemblesNodes.succ (h : AssemblesNodes times text fuel) :
    AssemblesNodes times text (fuel + 1) where
  node := h.node_succ
  nodeUnless ends block indentless := by
    rw [Assembler.nodeUnless]
    exact (sees_assembles ends).next fun _ => .ite (fun _ => keeps_pure emptyNode_isOf)
      fun _ => h.node block indentless
  blockItems := by
    rw [Assembler.blockItems]
    exact (takes_assembles _).next fun _ => .ite
      (fun _ => items_assembles (h.nodeUnless _ _ _) h.blockItems)
      fun _ => (expects_assembles _).next fun _ => keeps_pure (List.forall_mem_nil _)
  indentlessItems := by
    rw [Assembler.indentlessItems]
    exact (takes_assembles _).next fun _ => .ite
      (fun _ => items_assembles (h.nodeUnless _ _ _) h.indentlessItems)
      fun _ => keeps_pure (List.forall_mem_nil _)
  blockEntries := by
    rw [Assembler.blockEntries]
    exact (takes_assembles _).next fun _ => .ite (fun _ => h.entry h.blockEntries _ _ true)
      fun _ => (expects_assembles _).next fun _ => keeps_pure (List.forall_mem_nil _)
  flowItems first := by
    rw [Assembler.flowItems]
    exact (takes_assembles _).next fun _ => .ite (fun _ => keeps_pure (List.forall_mem_nil _))
      fun _ => .ite (fun _ => (expects_assembles _).next fun _ => h.flowItem) fun _ => h.flowItem
  flowEntries first := by
    rw [Assembler.flowEntries]
    exact (takes_assembles _).next fun _ => .ite (fun _ => keeps_pure (List.forall_mem_nil _))
      fun _ => .ite (fun _ => (expects_assembles _).next fun _ => h.flowEntry) fun _ => h.flowEntry

theorem assemblesNodes (times : Bool) (text : List Char) (fuel : Nat) :
    AssemblesNodes times text fuel := by
  induction fuel with
  | zero => constructor <;> intros <;> exact fail_assembles
  | succ fuel ih => exact ih.succ

theorem directives_assembles (fuel : Nat) (versioned : Bool) :
    Assembles times text (directives fuel versioned) fun _ => True := by
  induction fuel generalizing versioned with
  | zero => exact keeps_pure trivial
  | succ fuel ih =>
      refine peek_assembles.next fun t => ?_
      split
      · refine drop_assembles.next fun _ => ?_
        split
        · exact .ite (fun _ => fail_assembles.bind fun _ h => False.elim h) fun _ => ih _
        · refine keeps_get.next fun _ => .ite (fun _ => fail_assembles.bind fun _ h => False.elim h)
            fun _ => ?_
          exact .next (keeps_modify fun _ hs => ⟨hs.tokens, hs.names, hs.times⟩) fun _ => ih _
        · exact ih _
      · exact keeps_pure trivial

theorem documentEnds_assembles (fuel : Nat) :
    Assembles times text (documentEnds fuel) fun _ => True := by
  induction fuel with
  | zero => exact keeps_pure trivial
  | succ fuel ih =>
      exact (takes_assembles _).next fun _ => .ite (fun _ => ih) fun _ => keeps_pure trivial

theorem document_assembles (fuel : Nat) :
    Assembles times text (document fuel) fun n => ∀ m, n = some m → m.IsOf times text := by
  have hnodes := assemblesNodes times text fuel
  refine peek_assembles.next fun t => ?_
  split
  · exact keeps_pure nofun
  have ending : ∀ n : Node, n.IsOf times text → Assembles times text (do
      documentEnds fuel
      if (← peek).isSome then fail
      return some n) fun n => ∀ m, n = some m → m.IsOf times text := fun n hn =>
    (documentEnds_assembles fuel).next fun _ => peek_assembles.next fun _ =>
      .ite (fun _ => fail_assembles.bind fun _ h => False.elim h)
        fun _ => keeps_pure fun m hm => Option.some.inj hm ▸ hn
  refine .ite (fun _ => ?_) fun _ => ?_
  · refine (directives_assembles fuel false).next fun _ =>
      .next (keeps_modify fun _ hs => ⟨hs.tokens, hs.names, hs.times⟩) fun _ =>
      (expects_assembles _).next fun _ => peek_assembles.next fun _ => ?_
    split
    · exact ending _ emptyNode_isOf
    · exact ending _ emptyNode_isOf
    · exact ending _ emptyNode_isOf
    · exact ending _ emptyNode_isOf
    · exact (hnodes.node _ _).bind ending
  · exact .next (keeps_modify fun _ hs => ⟨hs.tokens, hs.names, hs.times⟩) fun _ =>
      (hnodes.node _ _).bind ending

end Assembler

/-- The document of a text is found unless scanning fails or the tokens do not make a document, and
it is a node of the text. -/
theorem Node.read_spec (times : Bool) (s : String) :
    Result.FailsOnly (IsScanFailure s.toList) (Node.read times s) ∧
      ∀ n, Node.read times s = .ok (some n) → n.IsOf times s.toList := by
  obtain ⟨hfails, htokens⟩ := tokens_spec s
  have hstart : ∀ ts, tokens s = .ok ts → Assembly.IsOf times s.toList ⟨ts, [], [], times⟩ :=
    fun ts hts => ⟨htokens ts hts, fun _ _ h => absurd h List.not_mem_nil, rfl⟩
  have hends := fun ts hts =>
    Assembler.document_assembles (4 * ts.length + 8) _ (hstart ts hts)
  unfold Node.read
  constructor
  · refine hfails.bind fun ts hts f hf => ?_
    rw [StateT.run'_eq] at hf
    cases hrun : (Assembler.document (4 * ts.length + 8)).run ⟨ts, [], [], times⟩ with
    | error e =>
        rw [hrun] at hf
        obtain rfl := Except.error.inj hf
        rw [(hends ts hts).error hrun]
        exact .malformed
    | ok r =>
        rw [hrun] at hf
        cases hf
  · intro n hn
    obtain ⟨ts, hts, hrun⟩ := Result.bind_eq_ok.1 hn
    rw [StateT.run'_eq] at hrun
    obtain ⟨⟨m, t⟩, hrun, hm⟩ := Result.map_eq_ok.1 hrun
    exact ((hends ts hts).ok hrun).2 n hm

end Yaml

end FormDesigner
