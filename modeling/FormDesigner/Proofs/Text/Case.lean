import Mathlib
import FormDesigner.Proofs.Text.Trim
import FormDesigner.Text.Letter

/-!
# Lower case

A character that another one becomes in lower case is in lower case itself. So a text in lower case
stays what it is when it is lowered again. Lowering makes neither blanks nor ASCII punctuation.
-/

namespace FormDesigner

namespace Text

/-! ### Runs -/

namespace CaseRun

variable {r q : CaseRun} {c n : Nat}

/-- The last character that the run is shifted to, where its step allows. -/
def lastImage (r : CaseRun) : Nat := r.image + (r.last - r.first)

/-- No character that the first run is shifted to belongs to the second one: either they lie apart,
or every other character belongs to them and they take turns. -/
def apart (r q : CaseRun) : Bool :=
  r.lastImage.blt q.first || q.last.blt r.image ||
    (q.step == 2 && (r.step == 2 || r.first == r.last) && (r.image + q.first) % 2 == 1)

/-- No character that the run is shifted to lies within some bounds. -/
def avoids (r : CaseRun) (bounds : Nat × Nat) : Bool :=
  r.lastImage.blt bounds.1 || bounds.2.blt r.image

theorem shift?_eq_some (h : r.shift? c = some n) :
    r.first ≤ c ∧ c ≤ r.last ∧ (c - r.first) % r.step = 0 ∧ n = r.image + (c - r.first) := by
  unfold shift? at h
  split at h
  · rename_i hc
    simp only [Bool.and_eq_true, decide_eq_true_eq, beq_iff_eq] at hc
    exact ⟨hc.1.1, hc.1.2, hc.2, (Option.some.inj h).symm⟩
  · cases h

theorem image_le_of_shift? (h : r.shift? c = some n) : r.image ≤ n ∧ n ≤ r.lastImage := by
  obtain ⟨hfirst, hlast, -, rfl⟩ := shift?_eq_some h
  unfold lastImage
  omega

theorem shift?_eq_none_of_apart (h : r.apart q = true) (hn : r.shift? c = some n) :
    q.shift? n = none := by
  obtain ⟨hfirst, hlast, hstep, hshifted⟩ := shift?_eq_some hn
  have hbounds := image_le_of_shift? hn
  rw [Option.eq_none_iff_forall_ne_some]
  intro m hm
  obtain ⟨hfirst', hlast', hstep', -⟩ := shift?_eq_some hm
  simp only [apart, Bool.or_eq_true, Bool.and_eq_true, Nat.blt_eq, beq_iff_eq] at h
  rcases h with (hbelow | habove) | ⟨⟨htwo, hother⟩, hturn⟩
  · omega
  · omega
  · -- The shift of the first run is even, so what it leads to is not on the steps of the second.
    have heven : (c - r.first) % 2 = 0 := by
      rcases hother with hr | hone
      · rwa [hr] at hstep
      · omega
    rw [htwo] at hstep'
    omega

theorem outside_of_avoids {bounds : Nat × Nat} (h : r.avoids bounds = true)
    (hn : r.shift? c = some n) : ¬ (bounds.1 ≤ n ∧ n ≤ bounds.2) := by
  have hbounds := image_le_of_shift? hn
  simp only [avoids, Bool.or_eq_true, Nat.blt_eq] at h
  omega

end CaseRun

theorem lowerRuns_apart : (lowerRuns.all fun r => lowerRuns.all r.apart) = true := by
  decide +kernel

/-- What no character becomes in lower case: the controls, blanks and punctuation that come before
the letters of ASCII and between them and those beyond, the other blanks, the two characters that
lower case treats apart, and what is no character at all. -/
def lowerGaps : List (Nat × Nat) :=
  [(0, 0x60), (0x7b, 0xde), (0x130, 0x130), (0x3a3, 0x3a3), (0x1680, 0x1680), (0x2000, 0x205f),
    (0x3000, 0x3000), (0xd800, 0xdfff)]

theorem lowerRuns_avoid : (lowerRuns.all fun r => lowerGaps.all r.avoids) = true := by
  decide +kernel

theorem lowerRuns_valid : (lowerRuns.all fun r => r.lastImage.blt 0x110000) = true := by
  decide +kernel

/-! ### Characters -/

variable {b c d : Char} {before after cs : List Char}

/-- A character that lower case leaves as it is, whatever stands around it. -/
def IsLower (c : Char) : Prop := ∀ before after, lowerIn before c after = [c]

theorem isLower_of_lowerChar (hsigma : c.toNat ≠ 0x3a3) (hdotted : c.toNat ≠ 0x130)
    (h : lowerChar c = c) : IsLower c := by
  intro before after
  rw [lowerIn, if_neg hsigma, if_neg hdotted, h]

/-- What another character becomes in lower case. -/
structure IsLowered (c : Char) : Prop where
  isLower : IsLower c
  notBlank : isBlank c = false
  notPlus : c ≠ '+'

theorem toNat_of_isUpper (h : c.isUpper = true) : 0x41 ≤ c.toNat ∧ c.toNat ≤ 0x5a := by
  simpa [Char.isUpper, UInt32.le_iff_toNat_le] using h

/-- A character outside the gaps that is in lower case could be what another one becomes. -/
theorem isLowered_of_outside
    (hgaps : ∀ bounds ∈ lowerGaps, ¬ (bounds.1 ≤ c.toNat ∧ c.toNat ≤ bounds.2))
    (h : lowerChar c = c) : IsLowered c := by
  simp only [lowerGaps, List.forall_mem_cons] at hgaps
  refine ⟨isLower_of_lowerChar (by omega) (by omega) h, ?_, ?_⟩
  · simp only [isBlank, Bool.or_eq_false_iff, Bool.and_eq_false_iff, decide_eq_false_iff_not,
      beq_eq_false_iff_ne]
    omega
  · rintro rfl
    have : ('+').toNat = 0x2b := rfl
    omega

theorem isLowered_of_shift? {r : CaseRun} {n m : Nat} (hr : r ∈ lowerRuns)
    (h : r.shift? m = some n) : IsLowered (Char.ofNat n) := by
  have hgaps : ∀ bounds ∈ lowerGaps, ¬ (bounds.1 ≤ n ∧ n ≤ bounds.2) := by
    intro bounds hbounds
    have havoid := List.all_eq_true.1 (List.all_eq_true.1 lowerRuns_avoid r hr) bounds hbounds
    exact CaseRun.outside_of_avoids havoid h
  have hlast := List.all_eq_true.1 lowerRuns_valid r hr
  have hbounds := CaseRun.image_le_of_shift? h
  have hnat : (Char.ofNat n).toNat = n := by
    have hsurrogate := hgaps (0xd800, 0xdfff) (by decide)
    rw [Nat.blt_eq] at hlast
    rw [Char.toNat_ofNat, if_pos]
    unfold Nat.isValidChar
    omega
  refine isLowered_of_outside (by rwa [hnat]) ?_
  have hupper : ¬ (Char.ofNat n).isUpper = true := by
    intro hupper
    have := hgaps (0, 0x60) (by decide)
    have := (toNat_of_isUpper hupper).2
    omega
  have hnone : lowerRuns.findSome? (fun q => q.shift? n) = none := by
    rw [List.findSome?_eq_none_iff]
    intro q hq
    have hapart := List.all_eq_true.1 (List.all_eq_true.1 lowerRuns_apart r hr) q hq
    exact CaseRun.shift?_eq_none_of_apart hapart h
  have hdotted : n ≠ 0x130 := fun heq => hgaps (0x130, 0x130) (by decide) (by simp [heq])
  unfold lowerChar
  rw [hnat, hnone, if_neg hdotted, Char.toLower_eq_of_not_isUpper hupper]
  exact ite_self _

theorem isLowered_of_isUpper (h : c.isUpper = true) : IsLowered c.toLower := by
  have hbounds := toNat_of_isUpper h
  have hnat : c.toLower.toNat = c.toNat + 32 := by
    rw [Char.toLower_eq_of_isUpper h, Char.toNat_ofNat, if_pos]
    unfold Nat.isValidChar
    omega
  refine isLowered_of_outside ?_ ?_
  · simp only [lowerGaps, List.forall_mem_cons]
    refine ⟨by omega, by omega, by omega, by omega, by omega, by omega, by omega, by omega, ?_⟩
    exact List.forall_mem_nil _
  · rw [lowerChar, if_pos (by omega), Char.toLower_toLower_eq_toLower]

theorem isLowered_i : IsLowered 'i' := isLowered_of_outside (by decide) (by decide +kernel)

/-- A character taken by itself either stays in lower case or becomes another one, which then
stays. -/
theorem lowerChar_cases (c : Char) : lowerChar c = c ∨ IsLowered (lowerChar c) := by
  unfold lowerChar
  split
  · by_cases hupper : c.isUpper = true
    · exact .inr (isLowered_of_isUpper hupper)
    · exact .inl (Char.toLower_eq_of_not_isUpper hupper)
  split
  · exact .inr isLowered_i
  · cases hfound : lowerRuns.findSome? fun r => r.shift? c.toNat with
    | none => exact .inl rfl
    | some n =>
        obtain ⟨r, hr, hn⟩ := List.exists_of_findSome?_eq_some hfound
        exact .inr (isLowered_of_shift? hr hn)

theorem mem_lowerIn (h : d ∈ lowerIn before c after) : (d = c ∧ IsLower c) ∨ IsLowered d := by
  have hfinal : IsLowered (Char.ofNat 0x3c2) := isLowered_of_outside (by decide) (by decide +kernel)
  have hinner : IsLowered (Char.ofNat 0x3c3) := isLowered_of_outside (by decide) (by decide +kernel)
  have hdot : IsLowered (Char.ofNat 0x307) := isLowered_of_outside (by decide) (by decide +kernel)
  unfold lowerIn at h
  split at h
  · right
    rw [List.mem_singleton] at h
    split at h
    · exact h ▸ hfinal
    · exact h ▸ hinner
  rename_i hsigma
  split at h
  · right
    rcases List.mem_cons.1 h with rfl | h
    · exact isLowered_i
    · exact List.mem_singleton.1 h ▸ hdot
  · rename_i hdotted
    obtain rfl := List.mem_singleton.1 h
    rcases lowerChar_cases c with hsame | hlowered
    · exact .inl ⟨hsame, isLower_of_lowerChar hsigma hdotted hsame⟩
    · exact .inr hlowered

theorem lowerIn_ne_nil (before : List Char) (c : Char) (after : List Char) :
    lowerIn before c after ≠ [] := by
  unfold lowerIn
  split
  · exact List.cons_ne_nil _ _
  split
  · exact List.cons_ne_nil _ _
  · exact List.cons_ne_nil _ _

/-! ### Texts -/

theorem mem_lowerFrom (h : d ∈ lowerFrom before cs) :
    ∃ c ∈ cs, (d = c ∧ IsLower c) ∨ IsLowered d := by
  induction cs generalizing before with
  | nil => cases h
  | cons c cs ih =>
      rcases List.mem_append.1 h with h | h
      · exact ⟨c, .head _, mem_lowerIn h⟩
      · obtain ⟨b, hb, hd⟩ := ih h
        exact ⟨b, .tail _ hb, hd⟩

theorem lowerFrom_eq_nil_iff : lowerFrom before cs = [] ↔ cs = [] := by
  cases cs with
  | nil => exact iff_of_true rfl rfl
  | cons c cs =>
      refine iff_of_false (fun h => ?_) (List.cons_ne_nil c cs)
      exact lowerIn_ne_nil _ _ _ (List.append_eq_nil_iff.1 h).1

theorem head?_lowerFrom (h : d ∈ (lowerFrom before cs).head?) :
    ∃ c ∈ cs.head?, d = c ∨ IsLowered d := by
  cases cs with
  | nil => cases h
  | cons c cs =>
      rw [lowerFrom, List.head?_append_of_ne_nil _ (lowerIn_ne_nil _ _ _)] at h
      exact ⟨c, rfl, (mem_lowerIn (List.mem_of_mem_head? h)).imp_left And.left⟩

theorem getLast?_lowerFrom (h : d ∈ (lowerFrom before cs).getLast?) :
    ∃ c ∈ cs.getLast?, d = c ∨ IsLowered d := by
  induction cs generalizing before with
  | nil => cases h
  | cons c cs ih =>
      rw [lowerFrom] at h
      cases cs with
      | nil =>
          rw [lowerFrom, List.append_nil] at h
          exact ⟨c, rfl, (mem_lowerIn (List.mem_of_mem_getLast? h)).imp_left And.left⟩
      | cons b cs =>
          have hmore := mt (@lowerFrom_eq_nil_iff (c :: before) _).1 (List.cons_ne_nil b cs)
          rw [List.getLast?_append_of_ne_nil _ hmore] at h
          rw [List.getLast?_cons_cons]
          exact ih h

theorem lowerFrom_of_isLower (h : ∀ c ∈ cs, IsLower c) : lowerFrom before cs = cs := by
  induction cs generalizing before with
  | nil => rfl
  | cons c cs ih =>
      obtain ⟨hc, hcs⟩ := List.forall_mem_cons.1 h
      rw [lowerFrom, hc, ih hcs, List.singleton_append]

theorem isLower_of_mem_lower {s : String} (h : d ∈ (lower s).toList) : IsLower d := by
  rw [lower, String.toList_ofList] at h
  obtain ⟨c, -, ⟨rfl, hc⟩ | hd⟩ := mem_lowerFrom h
  · exact hc
  · exact hd.isLower

/-- A text in lower case stays what it is. -/
theorem lower_lower (s : String) : lower (lower s) = lower s := by
  rw [lower, lowerFrom_of_isLower fun d hd => isLower_of_mem_lower hd, String.ofList_toList]

/-- No plus sign comes up in lower case. -/
theorem plus_notMem_lower {s : String} (h : '+' ∉ s.toList) : '+' ∉ (lower s).toList := by
  rw [lower, String.toList_ofList]
  intro hplus
  obtain ⟨c, hc, ⟨rfl, -⟩ | hlowered⟩ := mem_lowerFrom hplus
  · exact h hc
  · exact hlowered.notPlus rfl

theorem lower_eq_empty_iff {s : String} : lower s = "" ↔ s = "" := by
  rw [lower, String.ofList_eq_empty_iff, lowerFrom_eq_nil_iff, String.toList_eq_nil_iff]

/-- What has no blanks at its ends has none there in lower case either. -/
theorem trim_lower {s : String} (h : trim s = s) : trim (lower s) = lower s := by
  have hvisible {c d : Char} (hc : isBlank c = false) (hd : d = c ∨ IsLowered d) :
      isBlank d = false := by
    rcases hd with rfl | hlowered
    · exact hc
    · exact hlowered.notBlank
  obtain ⟨hhead, hlast⟩ := trimChars_eq_self_iff.1 (trimChars_toList h)
  rw [trim, lower, String.toList_ofList]
  refine congrArg String.ofList (trimChars_eq_self_iff.2 ⟨fun d hd => ?_, fun d hd => ?_⟩)
  · obtain ⟨c, hc, hcd⟩ := head?_lowerFrom hd
    exact hvisible (hhead c hc) hcd
  · obtain ⟨c, hc, hcd⟩ := getLast?_lowerFrom hd
    exact hvisible (hlast c hc) hcd

end Text

end FormDesigner
