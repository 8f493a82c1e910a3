import Mathlib.Data.List.Induction
import Mathlib.Data.List.Nodup
import Mathlib.Logic.Function.Basic
import FormDesigner.Proofs.Work
import FormDesigner.Shortcut.Binding

/-!
# Who listens where

However often bindings are attached and detached, and for whatever contexts, each listens exactly
once at the source that it is attached to and nowhere else. One step of this is attaching or
detaching one binding. So whoever hears of a key event that is handed out at a source acts on it
once.
-/

namespace FormDesigner

namespace Wiring

/-- What happens to bindings. A binding may also be attached for the length of a context, at the end
of which it is detached. -/
inductive Call where
  | attach (binding source : Nat)
  | detach (binding : Nat)
  | enter (binding source : Nat)
  | leave (binding : Nat)
deriving DecidableEq

namespace Call

def binding : Call → Nat
  | .attach b _ | .detach b | .enter b _ | .leave b => b

/-- Where the binding is attached afterwards. -/
def target? : Call → Option Nat
  | .attach _ s | .enter _ s => some s
  | .detach _ | .leave _ => none

def apply (w : Wiring) : Call → Wiring
  | .attach b s | .enter b s => w.attach b s
  | .detach b | .leave b => w.detach b

end Call

/-- The wiring of new bindings and sources after some calls. -/
def after (calls : List Call) : Wiring := calls.foldl Call.apply .empty

/-- Where the last call that concerns a binding leaves it attached. -/
def lastTarget? (calls : List Call) (b : Nat) : Option Nat :=
  (calls.filter fun c => c.binding = b).getLast?.bind Call.target?

/-- Every binding listens once where it is attached, and nowhere else. -/
def IsTidy (w : Wiring) : Prop :=
  ∀ b s, (w.listeners s).count b = if w.attached b = some s then 1 else 0

variable {w : Wiring} {b s : Nat}

/-! ### Steps -/

theorem attached_detach (w : Wiring) (b c : Nat) :
    (w.detach b).attached c = if c = b then none else w.attached c := by
  rw [detach]
  cases hb : w.attached b with
  | none =>
      by_cases hc : c = b
      · rw [if_pos hc, hc, hb]
      · rw [if_neg hc]
  | some s => rfl

theorem attached_attach (w : Wiring) (b s c : Nat) :
    (w.attach b s).attached c = if c = b then some s else w.attached c := by
  rw [attach]
  by_cases hb : w.attached b = some s
  · rw [if_pos hb]
    by_cases hc : c = b
    · rw [if_pos hc, hc, hb]
    · rw [if_neg hc]
  · rw [if_neg hb]
    change (if c = b then some s else (w.detach b).attached c) = _
    rw [attached_detach]
    by_cases hc : c = b
    · rw [if_pos hc, if_pos hc]
    · rw [if_neg hc, if_neg hc, if_neg hc]

theorem isTidy_empty : IsTidy empty := fun _ _ => rfl

theorem IsTidy.detach (h : IsTidy w) (b : Nat) : IsTidy (w.detach b) := by
  intro c t
  rw [attached_detach, Wiring.detach]
  cases hb : w.attached b with
  | none =>
      by_cases hc : c = b
      · rw [if_pos hc, hc, h, hb]
      · rw [if_neg hc]
        exact h c t
  | some s =>
      change (if t = s then (w.listeners t).erase b else w.listeners t).count c = _
      by_cases hc : c = b
      · subst hc
        have hcount := h c t
        rw [hb] at hcount
        by_cases ht : t = s
        · subst ht
          rw [if_pos rfl, List.count_erase_self, hcount]
          simp
        · rw [if_neg ht, hcount]
          simp [Ne.symm ht]
      · rw [if_neg hc, ← h c t]
        by_cases ht : t = s
        · rw [if_pos ht, List.count_erase_of_ne hc]
        · rw [if_neg ht]

/-- A binding that is attached nowhere, and so listens nowhere, may begin to listen. -/
theorem IsTidy.listen (h : IsTidy w) (hb : w.attached b = none) (s : Nat) :
    IsTidy ((w.addListener b s).setAttached b (some s)) := by
  intro c t
  change (if t = s then w.listeners t ++ [b] else w.listeners t).count c =
    if (if c = b then some s else w.attached c) = some t then 1 else 0
  have hcount := h c t
  by_cases hc : c = b
  · subst hc
    rw [hb] at hcount
    by_cases ht : t = s
    · subst ht
      simp [hcount]
    · rw [if_neg ht, if_pos rfl, hcount]
      simp [Ne.symm ht]
  · rw [if_neg hc, ← hcount]
    by_cases ht : t = s
    · rw [if_pos ht, List.count_append, List.count_singleton]
      simp [Ne.symm hc]
    · rw [if_neg ht]

theorem IsTidy.attach (h : IsTidy w) (b s : Nat) : IsTidy (w.attach b s) := by
  rw [Wiring.attach]
  by_cases hb : w.attached b = some s
  · rw [if_pos hb]
    exact h
  · rw [if_neg hb]
    refine (h.detach b).listen ?_ s
    rw [attached_detach, if_pos rfl]

theorem IsTidy.apply (h : IsTidy w) (c : Call) : IsTidy (c.apply w) := by
  cases c with
  | attach b s => exact h.attach b s
  | detach b => exact h.detach b
  | enter b s => exact h.attach b s
  | leave b => exact h.detach b

theorem Call.attached_apply (w : Wiring) (c : Call) (b : Nat) :
    (c.apply w).attached b = if b = c.binding then c.target? else w.attached b := by
  cases c with
  | attach b' s => exact attached_attach w b' s b
  | detach b' => exact attached_detach w b' b
  | enter b' s => exact attached_attach w b' s b
  | leave b' => exact attached_detach w b' b

/-! ### Runs -/

theorem after_concat (calls : List Call) (c : Call) :
    after (calls ++ [c]) = c.apply (after calls) := by
  rw [after, after, List.foldl_concat]

theorem isTidy_after (calls : List Call) : IsTidy (after calls) := by
  induction calls using List.reverseRecOn with
  | nil => exact isTidy_empty
  | append_singleton calls c ih =>
      rw [after_concat]
      exact ih.apply c

theorem attached_after (calls : List Call) (b : Nat) :
    (after calls).attached b = lastTarget? calls b := by
  induction calls using List.reverseRecOn with
  | nil => rfl
  | append_singleton calls c ih =>
      rw [after_concat, Call.attached_apply, ih, lastTarget?, lastTarget?, List.filter_append]
      by_cases hb : b = c.binding
      · subst hb
        simp
      · simp [hb, Ne.symm hb]

namespace IsTidy

theorem mem_listeners_iff (h : IsTidy w) : b ∈ w.listeners s ↔ w.attached b = some s := by
  rw [← List.count_pos_iff, h b s]
  by_cases hb : w.attached b = some s
  · simp [hb]
  · simp [hb]

theorem nodup_listeners (h : IsTidy w) (s : Nat) : (w.listeners s).Nodup := by
  refine List.nodup_iff_count_le_one.2 fun b => ?_
  rw [h b s]
  split
  · exact Nat.le_refl 1
  · exact Nat.zero_le 1

end IsTidy

end Wiring

/-! ### Handing out events -/

section Acting

variable {σ τ α : Type}

/-- Work in which some of those who listen act one after the other, each once, and all of them
unless one of them fails. -/
def ActsOnce (listens : Nat → Prop) (act : Nat → Work σ α) (w : Work σ (List α)) : Prop :=
  ∀ s, w.Ends s fun r t => ∃ acted : List Nat, acted.Nodup ∧ (∀ b ∈ acted, listens b) ∧
    t = acted.foldl (fun s b => ((act b).outcome s).2) s ∧
      ∀ rs, r = .ok rs → ∀ b, listens b → b ∈ acted

/-- Those who act are the first ones of the list, up to one that fails. -/
theorem mapM_acts (act : Nat → Work σ α) (bs : List Nat) (s : σ) :
    (bs.mapM act).Ends s fun r t => ∃ acted, acted <+: bs ∧
      t = acted.foldl (fun s b => ((act b).outcome s).2) s ∧ ∀ rs, r = .ok rs → acted = bs := by
  induction bs generalizing s with
  | nil => exact ⟨[], List.prefix_rfl, rfl, fun _ _ => rfl⟩
  | cons b bs ih =>
      rw [List.mapM_cons, Work.ends_bind]
      refine Work.ends_of_outcome fun r t hb => ?_
      have ht : ((act b).outcome s).2 = t := congrArg Prod.snd hb
      cases r with
      | error e =>
          refine ⟨[b], ⟨bs, rfl⟩, ht.symm, fun rs h => by cases h⟩
      | ok a =>
          rw [Work.andThen_ok, Work.ends_bind]
          refine (ih t).mono fun r u ⟨acted, hinit, hu, hall⟩ => ?_
          have hfold : u = (b :: acted).foldl (fun s b => ((act b).outcome s).2) s := by
            rw [List.foldl_cons, ht, hu]
          have hinit : b :: acted <+: b :: bs := List.cons_prefix_cons.2 ⟨rfl, hinit⟩
          cases r with
          | error e => exact ⟨b :: acted, hinit, hfold, fun rs h => by cases h⟩
          | ok rs => exact ⟨b :: acted, hinit, hfold, fun _ _ => by rw [hall rs rfl]⟩

theorem Wiring.IsTidy.actsOnce {w : Wiring} (h : w.IsTidy) (act : Nat → Work σ α) (s : Nat) :
    ActsOnce (fun b => w.attached b = some s) act ((w.listeners s).mapM act) := by
  intro before
  refine (mapM_acts act (w.listeners s) before).mono fun r t ⟨acted, hinit, ht, hall⟩ => ?_
  refine ⟨acted, (h.nodup_listeners s).sublist hinit.sublist, fun b hb => ?_, ht,
    fun rs hr b hb => ?_⟩
  · exact h.mem_listeners_iff.1 (hinit.subset hb)
  · rw [hall rs hr]
    exact h.mem_listeners_iff.2 hb

end Acting

/-- What a binding does on a key event where every binding edits one of several stores. -/
def handleAmong (shortcuts : Nat → Shortcuts) (store : Nat → Nat) (event : Value) (b : Nat) :
    Work (Nat → Store) (Option Reply) :=
  Work.onPart (fun stores => stores (store b)) (fun stores s => Function.update stores (store b) s)
    ((shortcuts b).handle event)

/-- Hands an event to bindings that edit several stores, one binding after the other. -/
def dispatchAmong (shortcuts : Nat → Shortcuts) (store : Nat → Nat) (listeners : List Nat)
    (event : Value) : Work (Nat → Store) (List (Option Reply)) :=
  listeners.mapM (handleAmong shortcuts store event)

section Sharing

variable {σ τ α β : Type} {get : σ → τ} {put : σ → τ → σ}

theorem onPart_bind (get_put : ∀ s t, get (put s t) = t)
    (put_put : ∀ s t u, put (put s t) u = put s u) (w : Work τ α) (f : α → Work τ β) :
    Work.onPart get put (w >>= f) =
      Work.onPart get put w >>= fun a => Work.onPart get put (f a) := by
  funext s
  change (Work.onPart get put (w >>= f)).outcome s = Work.outcome _ s
  rw [Work.outcome_onPart, Work.outcome_bind, Work.outcome_bind, Work.outcome_onPart]
  rcases w.outcome (get s) with ⟨_ | a, t⟩
  · rfl
  · simp only [Work.outcome_onPart, get_put, put_put]

theorem onPart_pure (put_get : ∀ s, put s (get s) = s) (a : α) :
    Work.onPart get put (pure a) = pure a := by
  funext s
  change (Work.onPart get put (pure a)).outcome s = Work.outcome _ s
  rw [Work.outcome_onPart, Work.outcome_pure, Work.outcome_pure, put_get]

/-- Work on one part, item by item, is work on that part as a whole. -/
theorem mapM_onPart (put_get : ∀ s, put s (get s) = s) (get_put : ∀ s t, get (put s t) = t)
    (put_put : ∀ s t u, put (put s t) u = put s u) (act : Nat → Work τ α) (bs : List Nat) :
    bs.mapM (fun b => Work.onPart get put (act b)) = Work.onPart get put (bs.mapM act) := by
  induction bs with
  | nil => rw [List.mapM_nil, List.mapM_nil, onPart_pure put_get]
  | cons b bs ih =>
      rw [List.mapM_cons, List.mapM_cons, ih, onPart_bind get_put put_put]
      congr 1
      funext a
      rw [onPart_bind get_put put_put]
      congr 1
      funext as
      rw [onPart_pure put_get]

end Sharing

/-- Bindings that all edit one store do to it what `dispatch` does. -/
theorem dispatchAmong_one (shortcuts : Nat → Shortcuts) (k : Nat) (listeners : List Nat)
    (event : Value) :
    dispatchAmong shortcuts (fun _ => k) listeners event =
      Work.onPart (fun stores => stores k) (fun stores s => Function.update stores k s)
        (dispatch shortcuts listeners event) :=
  mapM_onPart (fun stores : Nat → Store => Function.update_eq_self k stores)
    (fun (stores : Nat → Store) (s : Store) => Function.update_self k s stores)
    (fun (stores : Nat → Store) (s t : Store) => Function.update_idem s t stores)
    (fun b => (shortcuts b).handle event) listeners

namespace Wiring

/-- After any calls on new bindings and sources, each binding listens once at the source that its
last call attached it to, if any, and nowhere else. So whoever is attached to a source acts at most
once on an event that is handed out there, and nobody else acts on it, whether the bindings edit one
store or several. -/
theorem after_listens_once (calls : List Call) :
    (∀ b, (after calls).attached b = lastTarget? calls b) ∧
    (∀ b s, ((after calls).listeners s).count b =
      if (after calls).attached b = some s then 1 else 0) ∧
    (∀ shortcuts s event, ActsOnce (fun b => (after calls).attached b = some s)
      (fun b => (shortcuts b).handle event)
      (dispatch shortcuts ((after calls).listeners s) event)) ∧
    ∀ shortcuts store s event, ActsOnce (fun b => (after calls).attached b = some s)
      (handleAmong shortcuts store event)
      (dispatchAmong shortcuts store ((after calls).listeners s) event) := by
  have htidy := isTidy_after calls
  exact ⟨attached_after calls, htidy,
    fun shortcuts s event => htidy.actsOnce (fun b => (shortcuts b).handle event) s,
    fun shortcuts store s event => htidy.actsOnce (handleAmong shortcuts store event) s⟩

end Wiring

end FormDesigner
