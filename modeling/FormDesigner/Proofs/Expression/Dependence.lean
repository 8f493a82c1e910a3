import FormDesigner.Proofs.Expression.Evaluation

/-!
# What an expression depends on

The keys that an expression is reported to read are all that it depends on. Contexts that give the
same values to these keys, where a key that is absent counts as null, give the expression the same
value or the same failure, whatever else they hold.
-/

namespace FormDesigner.Expression

open Result

/-- The value that a context gives to a key. -/
def valueAt (context : Entries) (key : String) : Value :=
  (Entries.get? context (.text key)).getD .null

/-- Contexts that give the same value to each of some keys. -/
def AgreeOn (keys : List String) (c c' : Entries) : Prop :=
  ∀ key ∈ keys, valueAt c key = valueAt c' key

variable {keys keys' : List String} {c c' : Entries}

theorem AgreeOn.mono (h : AgreeOn keys c c') (hkeys : keys' ⊆ keys) : AgreeOn keys' c c' :=
  fun key hkey => h key (hkeys hkey)

theorem agreeOn_append :
    AgreeOn (keys ++ keys') c c' ↔ AgreeOn keys c c' ∧ AgreeOn keys' c c' :=
  List.forall_mem_append

/-! ### Evaluation -/

mutual

/-- By induction on the expression. Its operands read no other keys than it does, and only a field
looks into the context. -/
theorem evaluate_congr : (e : Expression) → AgreeOn e.reads c c' → evaluate c e = evaluate c' e
  | .literal _, _ => by rw [evaluate, evaluate]
  | .field key, h => by
      rw [evaluate, evaluate]
      exact congrArg Except.ok (h key (List.mem_singleton_self key))
  | .unary op e, h => by
      rw [reads] at h
      rw [evaluate, evaluate, evaluate_congr e h]
  | .binary op l r, h => by
      rw [reads] at h
      obtain ⟨hl, hr⟩ := agreeOn_append.1 h
      rw [evaluate, evaluate, evaluate_congr l hl, evaluate_congr r hr]
  | .concat parts, h => by
      rw [reads] at h
      rw [evaluate, evaluate, joinAll_congr parts h]
  | .logical op l r, h => by
      rw [reads] at h
      obtain ⟨hl, hr⟩ := agreeOn_append.1 h
      rw [evaluate, evaluate, evaluate_congr l hl, evaluate_congr r hr]

theorem joinAll_congr : (es : List Expression) → AgreeOn (readsAll es) c c' →
    joinAll c es = joinAll c' es
  | [], _ => by rw [joinAll, joinAll]
  | e :: es, h => by
      rw [readsAll] at h
      obtain ⟨he, hes⟩ := agreeOn_append.1 h
      rw [joinAll, joinAll, evaluate_congr e he, joinAll_congr es hes]

end

/-- So does the text of an expression, once it has been compiled. -/
theorem evaluateText_congr {limits : LimitSource} {source : Value}
    (h : ∀ e, compile limits source = .ok (some e) → AgreeOn e.reads c c') :
    evaluateText limits source c = evaluateText limits source c' := by
  rw [evaluateText, evaluateText]
  cases hcompile : compile limits source with
  | error f => rfl
  | ok e =>
      rw [ok_bind, ok_bind]
      cases e with
      | none => rfl
      | some e => simp only [evaluate_congr e (h e hcompile)]

/-! ### The keys that are reported -/

/-- One pass over the keys that are read keeps each of them. -/
theorem mem_foldl_keys {key : String} (found seen : List String) :
    key ∈ found.foldl (fun seen key => if seen.contains key then seen else seen ++ [key]) seen ↔
      key ∈ seen ∨ key ∈ found := by
  induction found generalizing seen with
  | nil => simp
  | cons k found ih =>
      rw [List.foldl_cons, ih, List.mem_cons]
      split
      · rename_i hk
        have hseen : key = k → key ∈ seen := fun h => h ▸ List.contains_iff_mem.1 hk
        rw [← or_assoc, or_iff_left_of_imp hseen]
      · rw [List.mem_append, List.mem_singleton, or_assoc]

/-- Every key that is read is reported, and no other. -/
theorem mem_keys_iff {e : Expression} {key : String} : key ∈ e.keys ↔ key ∈ e.reads := by
  rw [keys, mem_foldl_keys, or_iff_right List.not_mem_nil]

theorem referencedKeys_eq_ok_iff {limits : LimitSource} {source : Value} :
    referencedKeys limits source = .ok keys ↔
      ∃ e, compile limits source = .ok e ∧ (e.map Expression.keys).getD [] = keys := by
  rw [referencedKeys, bind_eq_ok]
  exact exists_congr fun e => and_congr_right fun _ => ⟨Except.ok.inj, congrArg _⟩

/-- Contexts that agree on the keys that a well-formed expression is reported to read are alike for
it: it has the same value in both or fails in the same way, and a field with this expression is
shown in both or in neither and has the same computed value. -/
theorem evaluateText_eq_of_agreeOn {limits : LimitSource} {source : Value}
    (reported : referencedKeys limits source = .ok keys) (agree : AgreeOn keys c c') :
    evaluateText limits source c = evaluateText limits source c' ∧
      isVisible limits source c = isVisible limits source c' ∧
      computed? limits source c = computed? limits source c' := by
  obtain ⟨e, hcompile, rfl⟩ := referencedKeys_eq_ok_iff.1 reported
  have htext : evaluateText limits source c = evaluateText limits source c' := by
    rw [evaluateText, evaluateText, hcompile, ok_bind, ok_bind]
    cases e with
    | none => rfl
    | some e =>
        have hreads : AgreeOn e.reads c c' := agree.mono fun key hkey => mem_keys_iff.2 hkey
        simp only [evaluate_congr e hreads]
  refine ⟨htext, ?_, ?_⟩
  · rw [isVisible, isVisible, htext]
  · rw [computed?, computed?, htext]

/-- The field `a` is null in one context and absent in the other. In both, the evaluation of `1/a`
fails with the same complaint about it. -/
theorem evaluateText_unitQuotient_of_absent :
    referencedKeys (.ok .standard) (.text "1/a") = .ok ["a"] ∧
      AgreeOn ["a"] [(.text "a", .null)] [(.text "b", .int 5)] ∧
      evaluateText (.ok .standard) (.text "1/a") [(.text "a", .null)] =
        evaluateText (.ok .standard) (.text "1/a") [(.text "b", .int 5)] ∧
      isVisible (.ok .standard) (.text "1/a") [(.text "a", .null)] =
        isVisible (.ok .standard) (.text "1/a") [(.text "b", .int 5)] ∧
      computed? (.ok .standard) (.text "1/a") [(.text "a", .null)] =
        computed? (.ok .standard) (.text "1/a") [(.text "b", .int 5)] := by
  have hreported : referencedKeys (.ok .standard) (.text "1/a") = .ok ["a"] :=
    referencedKeys_eq_ok_iff.2 ⟨_, compile_unitQuotient, by decide⟩
  have hagree : AgreeOn ["a"] [(.text "a", .null)] [(.text "b", .int 5)] :=
    List.forall_mem_singleton.2 (by cbv)
  exact ⟨hreported, hagree, evaluateText_eq_of_agreeOn hreported hagree⟩

end FormDesigner.Expression
