import FormDesigner.Proofs.Store.Reachable
import FormDesigner.Proofs.Text.Splitting

/-!
# Opening a store

A store that goes on from a state file takes over the state in it if that can be restored, and is
empty if there is no file or nothing in it that is of use. Whatever goes wrong with the history or
with a schema that is a value is expected and means that the state is of no use. Three kinds of
contents are not expected and stop the store from being opened: octets that are no text, integers of
too many digits, and the text of a schema whose reading as YAML meets an unexpected fault.
-/

namespace FormDesigner

open Result Work

/-! ### What makes a state unusable -/

/-- A computation fails only with failures that say that a stored state is no good. -/
abbrev IsExpected {α : Type} (r : Except Failure α) : Prop :=
  FailsOnly (fun e => StoredState.isUnusable e = true) r

namespace Value

theorem plain_isExpected (v : Value) : IsExpected v.plain := by
  unfold plain
  split
  · exact failsOnly_ok _
  · exact failsOnly_error rfl

theorem quoted_isExpected (v : Value) : IsExpected v.quoted := by
  unfold quoted
  split
  · exact failsOnly_ok _
  · exact failsOnly_error rfl

theorem entry_isExpected (v : Value) (name : String) : IsExpected (v.entry name) := by
  unfold entry
  split
  · split
    · exact failsOnly_ok _
    · exact failsOnly_error rfl
  · exact failsOnly_error rfl

theorem elements_isExpected (v : Value) : IsExpected v.elements := by
  unfold elements
  split <;> first | exact failsOnly_ok _ | exact failsOnly_error rfl

end Value

namespace Json

variable {s : Style} {level : Nat}

theorem integerText_isExpected (n : Int) : IsExpected (integerText n) := by
  unfold integerText
  split
  · exact failsOnly_ok _
  · exact failsOnly_error rfl

theorem keyText_isExpected (ascii : Bool) (k : Value) : IsExpected (keyText ascii k) := by
  cases k with
  | int n =>
      rw [keyText]
      exact (integerText_isExpected n).map
  | null | bool | float | text => exact failsOnly_ok _
  | _ => exact failsOnly_error rfl

theorem arrange_isExpected (s : Style) (members : List Member) :
    IsExpected (arrange s members) := by
  unfold arrange
  split
  · split
    · exact failsOnly_ok _
    · exact failsOnly_error rfl
  · exact failsOnly_ok _

mutual

theorem writeAt_isExpected (s : Style) (level : Nat) :
    (v : Value) → IsExpected (writeAt s level v)
  | .null => failsOnly_ok _
  | .bool _ => failsOnly_ok _
  | .int n => integerText_isExpected n
  | .float _ => failsOnly_ok _
  | .text _ => failsOnly_ok _
  | .list xs => (writeItems_isExpected s (level + 1) xs).bind fun _ _ => failsOnly_ok _
  | .tuple xs => (writeItems_isExpected s (level + 1) xs).bind fun _ _ => failsOnly_ok _
  | .map es =>
    (writeMembers_isExpected s (level + 1) es).bind fun members _ =>
      (arrange_isExpected s members).bind fun _ _ => failsOnly_ok _
  | .set _ => failsOnly_error rfl
  | .date _ => failsOnly_error rfl
  | .moment _ => failsOnly_error rfl
  | .bytes _ => failsOnly_error rfl

theorem writeItems_isExpected (s : Style) (level : Nat) :
    (xs : List Value) → IsExpected (writeItems s level xs)
  | [] => failsOnly_ok _
  | x :: xs =>
    (writeAt_isExpected s level x).bind fun _ _ =>
      (writeItems_isExpected s level xs).bind fun _ _ => failsOnly_ok _

theorem writeMembers_isExpected (s : Style) (level : Nat) :
    (es : List (Value × Value)) → IsExpected (writeMembers s level es)
  | [] => failsOnly_ok _
  | (k, v) :: es =>
    (keyText_isExpected s.ascii k).bind fun _ _ =>
      (writeAt_isExpected s level v).bind fun _ _ =>
        (writeMembers_isExpected s level es).bind fun _ _ => failsOnly_ok _

end

theorem parse_isExpected (s : String) : IsExpected (parse s) := by
  unfold parse
  cases read s with
  | ok v => exact failsOnly_ok _
  | error fault =>
      cases fault with
      | malformed => exact failsOnly_error rfl
      | integerTooLong digits => exact failsOnly_error rfl

end Json

namespace Schema

theorem schemaProblems_isExpected (v : Value) : IsExpected (schemaProblems v) := by
  unfold schemaProblems
  split
  · split
    · exact failsOnly_ok _
    · exact (Value.quoted_isExpected _).bind fun _ _ => failsOnly_ok _
  · exact failsOnly_ok _

theorem rangeProblem_isExpected (f : Field) : IsExpected (rangeProblem f) := by
  unfold rangeProblem
  dsimp only
  split
  · split
    · exact (Value.plain_isExpected _).bind fun _ _ => (Value.plain_isExpected _).bind fun _ _ =>
        (Value.plain_isExpected _).bind fun _ _ => failsOnly_ok _
    · exact failsOnly_ok _
  · exact failsOnly_ok _

theorem problems_isExpected (document : Value) : IsExpected (problems document) := by
  have hshown : ∀ (label : String) (vs : List Value), IsExpected
      (vs.mapM fun v => do return label ++ (← v.plain) ++ "'") := fun label vs =>
    .mapM fun v _ => (Value.plain_isExpected v).bind fun _ _ => failsOnly_ok _
  unfold problems
  refine (schemaProblems_isExpected document).bind fun shape _ => ?_
  split
  · exact failsOnly_ok _
  · exact (hshown "Duplicate field id '" _).bind fun _ _ =>
      (hshown "Duplicate field key '" _).bind fun _ _ =>
        (FailsOnly.mapM fun f _ => rangeProblem_isExpected f).bind fun _ _ => failsOnly_ok _

theorem accept_isExpected (document : Value) : IsExpected (accept document) := by
  unfold accept
  refine (problems_isExpected document).bind fun found _ => ?_
  split
  · exact failsOnly_ok _
  · exact failsOnly_error rfl

end Schema

theorem Snapshot.ofValue_isExpected (now : String) (v : Value) : IsExpected (ofValue now v) := by
  unfold ofValue
  exact (v.entry_isExpected "schema").bind fun schema _ =>
    (Json.writeAt_isExpected .canonical 0 schema).bind fun _ _ => failsOnly_ok _

theorem History.ofValue_isExpected (now : String) (capacity : Capacity) (v : Value) :
    IsExpected (ofValue now capacity v) := by
  have hread : ∀ push h entries, IsExpected (readAll now push h entries) := fun push h entries =>
    .foldlM (fun _ v _ => (Snapshot.ofValue_isExpected now v).bind fun _ _ => failsOnly_ok _) h
  unfold ofValue
  split
  · exact failsOnly_error rfl
  · exact (Value.elements_isExpected _).bind fun _ _ => (hread _ _ _).bind fun _ _ =>
      (Value.elements_isExpected _).bind fun _ _ => hread _ _ _

namespace StoredState

theorem checkSnapshot_isExpected (u : Snapshot) : IsExpected (checkSnapshot u) := by
  unfold checkSnapshot
  refine (Json.parse_isExpected u.payload).bind fun schema _ => ?_
  refine (Schema.problems_isExpected schema).bind fun found _ => ?_
  split
  · exact failsOnly_ok _
  · exact failsOnly_error rfl

variable {now : String} {capacity : Capacity} {state source : Value} {e : Failure}

/-- Only the text of a schema can keep a state from being read otherwise than by being no good. -/
theorem read_failsOnly (now : String) (capacity : Capacity) (state : Value) :
    FailsOnly (fun e => isUnusable e = true ∨
      ∃ source, state.get? "schema" = some (.text source) ∧ Schema.parseText source = .error e)
      (read now capacity state) := by
  have expected : ∀ {α : Type} {r : Except Failure α}, IsExpected r →
      FailsOnly (fun e => isUnusable e = true ∨
        ∃ source, state.get? "schema" = some (.text source) ∧
          Schema.parseText source = .error e) r := fun h => h.mono fun _ he => .inl he
  unfold read
  refine (expected (state.entry_isExpected "schema")).bind fun source hsource => ?_
  refine FailsOnly.bind ?_ fun schema _ => ?_
  · refine FailsOnly.bind (fun e he => ?_) fun document _ =>
      expected (Schema.accept_isExpected document)
    cases source with
    | text s => exact .inr ⟨s, Value.entry_eq_ok_iff.1 hsource, he⟩
    | _ => cases he
  · refine (expected (History.ofValue_isExpected _ _ _)).bind fun history _ => ?_
    refine FailsOnly.bind (.forM fun u _ => expected (checkSnapshot_isExpected u)) fun _ _ => ?_
    exact failsOnly_ok _

end StoredState

/-! ### What a state file holds -/

namespace Disk

/-- What a file holds, or that there is none at its path. -/
def Holds (d : Disk) (p : Path) : Option (List UInt8) → Prop
  | none => d.contains p = .ok false
  | some octets => d.contains p = .ok true ∧ d.read p = .ok octets

end Disk

namespace Storage

variable {g : Storage} {d : Disk} {directory : Path} {name : String} {octets : List UInt8}

/-- The octets of a state file are the text of an envelope of a storage with a state in it. -/
def Envelops (g : Storage) (octets : List UInt8) (state : Value) : Prop :=
  ∃ text kept, Text.ofFile? octets = some text ∧ Json.read text = .ok kept ∧
    g.unwrap kept = .ok (some state)

/-- The content of a state file keeps a store from being opened at all. -/
inductive Stops (g : Storage) (octets : List UInt8) : Failure → Prop
  | undecodable (undecodable : Text.ofFile? octets = none) : Stops g octets .undecodable
  | integerTooLong {text : String} {digits : Nat} (decoded : Text.ofFile? octets = some text)
      (read : Json.read text = .error (.integerTooLong digits)) :
      Stops g octets (.integerDigitLimit digits)
  | schemaText {state : Value} {source : String} {e : Failure} (envelops : g.Envelops octets state)
      (schema : state.get? "schema" = some (.text source))
      (unread : Schema.parseText source = .error e)
      (unexpected : StoredState.isUnusable e = false) : Stops g octets e

section

variable (hmedium : g.medium = .folder directory) (hname : g.name = .text name)
variable (hfile : d.Holds (directory.child (name ++ ".json")) (some octets))

include hmedium hname hfile

end

end Storage

/-- How restoring ends. -/
theorem Editing.ends_restore {s : Store} {g : Storage} (hstorage : s.storage = some g)
    {Q : Except Failure Bool → Store → Prop} :
    restore.Ends s Q ↔
      match g.load s.host.disk with
      | .error (.storage ..) => Q (.ok false) s
      | .error e => Q (.error e) s
      | .ok none => Q (.ok false) s
      | .ok (some state) =>
        match StoredState.read s.host.timestamp s.history.capacity state with
        | .ok stored => Q (.ok true) (s.withState stored)
        | .error e =>
          if StoredState.isUnusable e then Q (.ok false) s.emptied else Q (.error e) s := by
  unfold restore
  rw [ends_bind, ends_get, andThen_ok, hstorage]
  dsimp only
  cases g.load s.host.disk with
  | error e => cases e <;> rfl
  | ok state =>
      cases state with
      | none => rfl
      | some state =>
          dsimp only
          cases StoredState.read s.host.timestamp s.history.capacity state with
          | ok stored => rfl
          | error e =>
              dsimp only
              split <;> rfl

namespace Store

variable {g : Storage} {host : Host} {capacity : Value} {k : Capacity}

/-- How a store goes on from what its storage holds. -/
theorem ofStorage_eq (hk : Capacity.ofValue capacity = .ok k) :
    ofStorage host capacity (some g) =
      match g.load host.disk with
      | .error (.storage ..) => .ok (start host Schema.empty k (some g))
      | .error e => .error e
      | .ok none => .ok (start host Schema.empty k (some g))
      | .ok (some state) =>
        match StoredState.read host.timestamp k state with
        | .ok stored => .ok ((start host Schema.empty k (some g)).withState stored)
        | .error e =>
          if StoredState.isUnusable e then .ok (start host Schema.empty k (some g))
          else .error e := by
  have hcreate : create host .null capacity (some g) =
      .ok (start host Schema.empty k (some g)) := by
    unfold create
    rw [hk]
    rfl
  generalize hs : start host Schema.empty k (some g) = s at hcreate ⊢
  have hstorage : s.storage = some g := hs ▸ rfl
  have hhost : s.host = host := hs ▸ rfl
  have hcapacity : s.history.capacity = k := hs ▸ rfl
  have hemptied : s.emptied = s := hs ▸ rfl
  have houtcome : Editing.restore.Ends s fun r t => Editing.restore.outcome s = (r, t) :=
    ends_of_outcome fun _ _ h => h
  rw [Editing.ends_restore hstorage, hhost, hcapacity, hemptied] at houtcome
  rw [ofStorage, hcreate, ok_bind]
  cases hload : g.load host.disk with
  | error e =>
      rw [hload] at houtcome
      cases e <;> · rw [houtcome]; rfl
  | ok state =>
      rw [hload] at houtcome
      cases state with
      | none =>
          rw [houtcome]
          rfl
      | some state =>
          dsimp only at houtcome ⊢
          cases hread : StoredState.read host.timestamp k state with
          | ok stored =>
              rw [hread] at houtcome
              rw [houtcome]
              rfl
          | error e =>
              rw [hread] at houtcome
              dsimp only at houtcome ⊢
              split at houtcome
              · rw [houtcome, if_pos ‹_›]
                rfl
              · rw [houtcome, if_neg ‹_›]
                rfl

end Store

/-! ### An octet that is no text -/

end FormDesigner
