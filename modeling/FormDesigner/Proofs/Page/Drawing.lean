import FormDesigner.Page.Drawing
import FormDesigner.Proofs.Work

/-!
# Reasoning about drawing

`d.Leaves p Q` says what holds after `d` has been drawn on the page `p` without an interruption. It
is computed step by step, as for `Work`. Drawing that is steady only adds to what is shown, and goes
on in the same session ground: the store and the disk, and so the limits of expressions, stay what
they are.
-/

namespace FormDesigner

namespace Page

/-- A page goes on from another: it shows more, for the same visit and on the same ground. -/
structure GoesOn (p q : Page) : Prop where
  shown : p.shown <+: q.shown
  ground : q.session.ground = p.session.ground
  visit : q.visit = p.visit

variable {p q r : Page}

theorem GoesOn.refl (p : Page) : p.GoesOn p := ⟨List.prefix_rfl, rfl, rfl⟩

theorem GoesOn.trans (h : p.GoesOn q) (h' : q.GoesOn r) : p.GoesOn r :=
  ⟨h.shown.trans h'.shown, h'.ground.trans h.ground, h'.visit.trans h.visit⟩

theorem GoesOn.limits (h : p.GoesOn q) : q.session.limits = p.session.limits := by
  unfold Session.limits Session.config Session.host
  rw [h.ground]

end Page

namespace Drawing

variable {α β ι : Type} {d : Drawing α} {f : α → Drawing β} {p q : Page}

/-- Unless drawing is interrupted, its result and the page after it are as `Q` says. -/
def Leaves (d : Drawing α) (p : Page) (Q : α → Page → Prop) : Prop :=
  match d.run p with
  | (.ok a, q) => Q a q
  | (.error _, _) => True

variable {Q R : α → Page → Prop}

theorem leaves_iff : d.Leaves p Q ↔ ∀ a q, d.run p = (.ok a, q) → Q a q := by
  unfold Leaves
  rcases d.run p with ⟨e | a, q⟩
  · refine iff_of_true trivial ?_
    intro a q h
    cases h
  · constructor
    · intro h b r heq
      cases heq
      exact h
    · intro h
      exact h a q rfl

theorem Leaves.mono (h : d.Leaves p Q) (hQR : ∀ a q, Q a q → R a q) : d.Leaves p R := by
  rw [leaves_iff] at h ⊢
  intro a q hd
  exact hQR a q (h a q hd)

theorem leaves_of_run {a : α} (h : d.run p = (.ok a, q)) : d.Leaves p Q ↔ Q a q := by
  rw [Leaves, h]

theorem leaves_self (d : Drawing α) (p : Page) : d.Leaves p fun a q => d.run p = (.ok a, q) :=
  leaves_iff.2 fun _ _ h => h

theorem run_bind (f : α → Drawing β) :
    (d >>= f).run p =
      match d.run p with
      | (.ok a, q) => (f a).run q
      | (.error e, q) => (.error e, q) := by
  change (ExceptT.bindCont (fun a => f a) (d.run p).1) (d.run p).2 = _
  rcases d.run p with ⟨_ | _, q⟩ <;> rfl

theorem run_bind_of_ok {a : α} (f : α → Drawing β) (h : d.run p = (.ok a, q)) :
    (d >>= f).run p = (f a).run q := by
  rw [run_bind, h]

@[simp] theorem leaves_bind {Q : β → Page → Prop} :
    (d >>= f).Leaves p Q ↔ d.Leaves p fun a q => (f a).Leaves q Q := by
  rw [Leaves, run_bind, Leaves]
  rcases d.run p with ⟨_ | _, q⟩ <;> rfl

@[simp] theorem leaves_pure (a : α) : (pure a : Drawing α).Leaves p Q ↔ Q a p := leaves_of_run rfl

theorem leaves_ite {c : Prop} [Decidable c] {e : Drawing α} (hd : d.Leaves p Q)
    (he : e.Leaves p Q) : (if c then d else e).Leaves p Q := by
  split
  · exact hd
  · exact he

@[simp] theorem leaves_get {Q : Page → Page → Prop} :
    (get : Drawing Page).Leaves p Q ↔ Q p p := leaves_of_run rfl

@[simp] theorem leaves_throw (e : Interruption) : (throw e : Drawing α).Leaves p Q ↔ True := Iff.rfl

@[simp] theorem leaves_add (e : Element) {Q : Unit → Page → Prop} :
    (add e).Leaves p Q ↔ Q () { p with shown := p.shown ++ [e] } := leaves_of_run rfl

theorem run_sit (w : Sitting α) (p : Page) :
    (sit w).run p = ((w.outcome p.session).1.mapError .failure,
      { p with session := (w.outcome p.session).2 }) := rfl

theorem run_sit_of_ok {w : Sitting α} {a : α} {t : Session}
    (h : w.outcome p.session = (.ok a, t)) : (sit w).run p = (.ok a, { p with session := t }) := by
  rw [run_sit, h]
  rfl

theorem run_ofExcept {a : α} {r : Except Failure α} (h : r = .ok a) (p : Page) :
    (ofExcept r).run p = (.ok a, p) := by
  rw [ofExcept]
  refine run_sit_of_ok ?_
  rw [Work.outcome_ofExcept, h]

theorem run_store {s : Store} (h : p.session.store? = some s) : store.run p = (.ok s, p) := by
  refine run_sit_of_ok ?_
  have hget : (get : Sitting Session).outcome p.session = (.ok p.session, p.session) := rfl
  rw [Sitting.store, Work.outcome_bind, hget]
  dsimp only
  rw [h]
  rfl

@[simp] theorem leaves_sit (w : Sitting α) :
    (sit w).Leaves p Q ↔
      w.Ends p.session fun r s => ∀ a, r = .ok a → Q a { p with session := s } := by
  rw [Leaves, run_sit, Work.ends_iff]
  rcases w.outcome p.session with ⟨e | a, s⟩
  · refine iff_of_true trivial ?_
    intro a h
    cases h
  · constructor
    · intro h b heq
      cases heq
      exact h
    · intro h
      exact h a rfl

@[simp] theorem leaves_ofExcept (r : Except Failure α) :
    (ofExcept r).Leaves p Q ↔ ∀ a, r = .ok a → Q a p := by
  rw [ofExcept, leaves_sit, Work.ends_ofExcept]

@[simp] theorem leaves_limits {Q : Expression.LimitSource → Page → Prop} :
    limits.Leaves p Q ↔ Q p.session.limits p := leaves_of_run rfl

@[simp] theorem leaves_redraw : (redraw : Drawing α).Leaves p Q ↔ True := by
  rw [redraw, leaves_bind, leaves_add, leaves_throw]

@[simp] theorem leaves_store {Q : Store → Page → Prop} :
    store.Leaves p Q ↔ ∀ s, p.session.store? = some s → Q s p := by
  rw [store, leaves_sit, Sitting.store, Work.ends_bind, Work.ends_get, Work.andThen_ok]
  cases p.session.store? with
  | none => exact iff_of_true (fun _ h => by cases h) fun _ h => by cases h
  | some t =>
      constructor
      · intro h s hs
        cases hs
        exact h t rfl
      · intro h s hs
        cases hs
        exact h t rfl

@[simp] theorem leaves_button (e : Element) {Q : Bool → Page → Prop} :
    (button e).Leaves p Q ↔ Q (!e.isDisabled && e.name.among p.visit.pressed)
      { p with shown := p.shown ++ [e] } := leaves_of_run rfl

/-! ### Steady drawing -/

/-- Drawing only adds to what is shown, and stays on the ground of the session. -/
def IsSteady (d : Drawing α) : Prop := ∀ p, d.Leaves p fun _ q => p.GoesOn q

theorem IsSteady.bind (hd : d.IsSteady) (hf : ∀ a, (f a).IsSteady) : (d >>= f).IsSteady := by
  intro p
  rw [leaves_bind]
  refine (hd p).mono fun a q hq => ?_
  exact (hf a q).mono fun b r hr => hq.trans hr

/-- What is drawn after something steady starts on a page that goes on from the first one. -/
theorem Leaves.after {Q : β → Page → Prop} (hd : d.IsSteady)
    (hf : ∀ a q, p.GoesOn q → (f a).Leaves q Q) : (d >>= f).Leaves p Q := by
  rw [leaves_bind]
  exact (hd p).mono fun a q hq => hf a q hq

/-- What has been shown is still there after something steady. -/
theorem IsSteady.keeps_shown (hd : d.IsSteady) {e : Element} (he : e ∈ p.shown) :
    d.Leaves p fun _ q => e ∈ q.shown :=
  (hd p).mono fun _ _ hq => hq.shown.subset he

theorem IsSteady.ite {c : Prop} [Decidable c] {e : Drawing α} (hd : d.IsSteady) (he : e.IsSteady) :
    IsSteady (if c then d else e) := by
  split
  · exact hd
  · exact he

theorem steady_sit {w : Sitting α}
    (hw : ∀ s, w.Ends s fun _ t => t.ground = s.ground) : (sit w).IsSteady := by
  intro p
  rw [leaves_sit]
  exact (hw p.session).mono fun r s hs a _ => ⟨List.prefix_rfl, hs, rfl⟩

/-! ### Drawing that leaves the session alone -/

/-- Drawing is steady and leaves the session as it is. -/
def IsStill (d : Drawing α) : Prop :=
  ∀ p, d.Leaves p fun _ q => p.GoesOn q ∧ q.session = p.session

theorem IsStill.steady (hd : d.IsStill) : d.IsSteady := fun p => (hd p).mono fun _ _ h => h.1

theorem IsStill.bind (hd : d.IsStill) (hf : ∀ a, (f a).IsStill) : (d >>= f).IsStill := by
  intro p
  rw [leaves_bind]
  refine (hd p).mono fun a q hq => ?_
  exact (hf a q).mono fun b r hr => ⟨hq.1.trans hr.1, hr.2.trans hq.2⟩

theorem IsStill.ite {c : Prop} [Decidable c] {e : Drawing α} (hd : d.IsStill) (he : e.IsStill) :
    IsStill (if c then d else e) := by
  split
  · exact hd
  · exact he

theorem still_pure (a : α) : IsStill (pure a) := fun p => (leaves_pure a).2 ⟨.refl p, rfl⟩

theorem still_get : (get : Drawing Page).IsStill := fun p => leaves_get.2 ⟨.refl p, rfl⟩

theorem still_add (e : Element) : (add e).IsStill := fun _ =>
  (leaves_add e).2 ⟨⟨List.prefix_append _ _, rfl, rfl⟩, rfl⟩

theorem still_ofExcept (r : Except Failure α) : (ofExcept r).IsStill := fun p =>
  (leaves_ofExcept r).2 fun _ _ => ⟨.refl p, rfl⟩

theorem still_limits : limits.IsStill := fun p => leaves_limits.2 ⟨.refl p, rfl⟩

/-- What is done before the page is drawn again is never seen on this page. -/
theorem still_redraw : (d >>= fun _ => (redraw : Drawing β)).IsStill := by
  intro p
  rw [leaves_bind]
  exact (leaves_self d p).mono fun _ _ _ => leaves_redraw.2 trivial

theorem still_button (e : Element) : (button e).IsStill :=
  (still_add e).bind fun _ => still_get.bind fun _ => still_pure _

theorem still_tableEditor (t : Table) (properties : List (String × Value)) :
    (tableEditor t properties).IsStill := by
  have hentered : ∀ e, (entered? e).IsStill := fun e =>
    (still_add e).bind fun _ => still_get.bind fun _ => still_pure _
  refine (hentered _).bind fun v => ?_
  split
  · exact still_pure _
  · exact still_pure _

/-- Still drawing for one thing after the other is still. -/
theorem still_forIn {g : ι → PUnit → Drawing (ForInStep PUnit)} (hg : ∀ x u, (g x u).IsStill)
    (xs : List ι) (u : PUnit) : (forIn xs u g).IsStill := by
  induction xs generalizing u with
  | nil => exact still_pure _
  | cons x xs ih =>
      rw [List.forIn_cons]
      refine (hg x u).bind fun step => ?_
      cases step with
      | done v => exact still_pure _
      | yield v => exact ih v

/-- What is drawn for one thing after the other leaves what each of these leaves, if what is drawn
later does not undo it and none of it is the last. -/
theorem leaves_forIn {g : ι → PUnit → Drawing (ForInStep PUnit)} {P : ι → Page → Prop}
    (hg : ∀ x u, (g x u).IsStill)
    (hstep : ∀ x u r, p.GoesOn r → (g x u).Leaves r fun step q => (∃ v, step = .yield v) ∧ P x q)
    (hstays : ∀ {x q r}, P x q → q.GoesOn r → P x r) (xs : List ι) (u : PUnit) :
    (forIn xs u g).Leaves p fun _ q => ∀ x ∈ xs, P x q := by
  have hfrom : ∀ r, p.GoesOn r → (forIn xs u g).Leaves r fun _ q => ∀ x ∈ xs, P x q := by
    induction xs generalizing u with
    | nil =>
        intro r _
        exact (leaves_pure u).2 (List.forall_mem_nil _)
    | cons x xs ih =>
        intro r hr
        rw [List.forIn_cons, leaves_bind, leaves_iff]
        intro step q hrun
        obtain ⟨⟨v, rfl⟩, hx⟩ := leaves_iff.1 (hstep x u r hr) step q hrun
        have hq := hr.trans (leaves_iff.1 ((hg x u).steady r) _ q hrun)
        rw [leaves_iff]
        intro w t hrest
        have ht := leaves_iff.1 ((still_forIn hg xs v).steady q) w t hrest
        exact List.forall_mem_cons.2 ⟨hstays hx ht, leaves_iff.1 (ih v q hq) w t hrest⟩
  exact hfrom p (.refl p)

end Drawing

end FormDesigner
