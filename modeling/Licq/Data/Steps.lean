import Mathlib.Init

/-!
# Data/Steps — what holds along a run

A system is a partial step function: in some states some actions end the run.  `Stays` says that a
property holds in every state that a run comes to, `Each` that every action of the run meets a
condition in the state it is taken in.  `stays_iff_each` brings a statement about all runs down to
one step.
-/

namespace Steps

variable {σ α : Type*} (step : σ → α → Option σ)

/-- The property holds in every state that the run comes to. -/
def Stays (P : σ → Prop) : σ → List α → Prop
  | s, [] => P s
  | s, a :: as => P s ∧ ∀ s', step s a = some s' → Stays P s' as

/-- Every action of the run meets the condition in the state it is taken in. -/
def Each (Ok : σ → α → Prop) : σ → List α → Prop
  | _, [] => True
  | s, a :: as => Ok s a ∧ ∀ s', step s a = some s' → Each Ok s' as

variable {step}

theorem Stays.head {P : σ → Prop} {s : σ} {as : List α} (h : Stays step P s as) : P s := by
  cases as with
  | nil => exact h
  | cons a as => exact h.1

/-- **From one step to a run.**  If a step keeps the property exactly when its action meets the
condition, a run stays in the property exactly when all its actions meet the condition. -/
theorem stays_iff_each {P : σ → Prop} {Ok : σ → α → Prop}
    (hend : ∀ s a, P s → step s a = none → Ok s a)
    (hstep : ∀ s a s', P s → step s a = some s' → (P s' ↔ Ok s a)) {s : σ} (h : P s)
    (as : List α) : Stays step P s as ↔ Each step Ok s as := by
  induction as generalizing s with
  | nil => exact ⟨fun _ => trivial, fun _ => h⟩
  | cons a as ih =>
    rw [Stays, Each]
    cases hs : step s a with
    | none =>
      refine ⟨fun _ => ⟨hend s a h hs, fun s' hs' => ?_⟩, fun _ => ⟨h, fun s' hs' => ?_⟩⟩
      all_goals cases hs'
    | some t =>
      have hiff := hstep s a t h hs
      constructor
      · rintro ⟨-, hrest⟩
        have ht : P t := (hrest t rfl).head
        refine ⟨hiff.mp ht, fun s' hs' => ?_⟩
        obtain rfl : t = s' := Option.some.inj hs'
        exact (ih ht).mp (hrest t rfl)
      · rintro ⟨hok, hrest⟩
        refine ⟨h, fun s' hs' => ?_⟩
        obtain rfl : t = s' := Option.some.inj hs'
        exact (ih (hiff.mpr hok)).mpr (hrest t rfl)

/-- **From one step to a run, with an invariant** that steps keep as long as the property holds. -/
theorem stays_iff_each_of_inv {P I : σ → Prop} {Ok : σ → α → Prop}
    (hend : ∀ s a, P s → I s → step s a = none → Ok s a)
    (hstep : ∀ s a s', P s → I s → step s a = some s' → (P s' ↔ Ok s a))
    (hinv : ∀ s a s', P s → I s → step s a = some s' → P s' → I s') {s : σ} (hp : P s) (hi : I s)
    (as : List α) : Stays step P s as ↔ Each step Ok s as := by
  have hboth : Stays step P s as ↔ Stays step (fun s => P s ∧ I s) s as := by
    induction as generalizing s with
    | nil => exact ⟨fun h => ⟨h, hi⟩, fun h => h.1⟩
    | cons a as ih =>
      rw [Stays, Stays]
      constructor
      · rintro ⟨-, hrest⟩
        refine ⟨⟨hp, hi⟩, fun s' hs' => ?_⟩
        have hp' := (hrest s' hs').head
        exact (ih hp' (hinv s a s' hp hi hs' hp')).mp (hrest s' hs')
      · rintro ⟨-, hrest⟩
        refine ⟨hp, fun s' hs' => ?_⟩
        obtain ⟨hp', hi'⟩ := (hrest s' hs').head
        exact (ih hp' hi').mpr (hrest s' hs')
  refine hboth.trans (stays_iff_each (fun s a h => hend s a h.1 h.2) ?_ ⟨hp, hi⟩ as)
  intro s a s' h hs
  refine ⟨fun h' => (hstep s a s' h.1 h.2 hs).mp h'.1, fun hok => ?_⟩
  have hp' := (hstep s a s' h.1 h.2 hs).mpr hok
  exact ⟨hp', hinv s a s' h.1 h.2 hs hp'⟩

/-- A run goes on to its end, if no step fails whose action meets the condition. -/
theorem exists_foldlM_of_each {P : σ → Prop} {Ok : σ → α → Prop}
    (hstep : ∀ s a, P s → Ok s a → ∃ t, step s a = some t ∧ P t) {s : σ} {as : List α} (h : P s)
    (hok : Each step Ok s as) : ∃ t, as.foldlM step s = some t ∧ P t := by
  induction as generalizing s with
  | nil => exact ⟨s, rfl, h⟩
  | cons a as ih =>
    obtain ⟨r, hr, hP⟩ := hstep s a h hok.1
    obtain ⟨t, ht, hP⟩ := ih hP (hok.2 r hr)
    refine ⟨t, ?_, hP⟩
    rw [List.foldlM_cons, hr]
    exact ht

/-- A condition that every action meets. -/
theorem each_of_forall {Ok : σ → α → Prop} (h : ∀ s a, Ok s a) (s : σ) (as : List α) :
    Each step Ok s as := by
  induction as generalizing s with
  | nil => trivial
  | cons a as ih => exact ⟨h s a, fun s' _ => ih s'⟩

/-- A step that is taken. -/
theorem each_cons {Ok : σ → α → Prop} {s t : σ} {a : α} {as : List α} (h : step s a = some t) :
    Each step Ok s (a :: as) ↔ Ok s a ∧ Each step Ok t as := by
  rw [Each, h]
  refine and_congr_right fun _ => ⟨fun hall => hall t rfl, fun ht s' hs' => ?_⟩
  cases hs'
  exact ht

instance Each.decidable {Ok : σ → α → Prop} [∀ s a, Decidable (Ok s a)] :
    (s : σ) → (as : List α) → Decidable (Each step Ok s as)
  | _, [] => isTrue trivial
  | s, a :: as =>
    match h : step s a with
    | none => decidable_of_iff (Ok s a)
        ⟨fun hok => ⟨hok, fun s' hs' => by cases h.symm.trans hs'⟩, fun hall => hall.1⟩
    | some t =>
      have : Decidable (Each step Ok t as) := Each.decidable t as
      decidable_of_iff (Ok s a ∧ Each step Ok t as) (each_cons h).symm

theorem Stays.mono {P Q : σ → Prop} (h : ∀ s, P s → Q s) {s : σ} {as : List α}
    (hstays : Stays step P s as) : Stays step Q s as := by
  induction as generalizing s with
  | nil => exact h s hstays
  | cons a as ih => exact ⟨h s hstays.1, fun s' hs' => ih (hstays.2 s' hs')⟩

theorem Stays.and {P Q : σ → Prop} {s : σ} {as : List α} (hp : Stays step P s as)
    (hq : Stays step Q s as) : Stays step (fun s => P s ∧ Q s) s as := by
  induction as generalizing s with
  | nil => exact ⟨hp, hq⟩
  | cons a as ih => exact ⟨⟨hp.1, hq.1⟩, fun s' hs' => ih (hp.2 s' hs') (hq.2 s' hs')⟩

/-- The property holds where a run ends that can be taken to its end. -/
theorem Stays.foldlM {P : σ → Prop} {s t : σ} {as : List α} (h : Stays step P s as)
    (hrun : as.foldlM step s = some t) : P t := by
  induction as generalizing s with
  | nil =>
    cases hrun
    exact h
  | cons a as ih =>
    rw [List.foldlM_cons] at hrun
    cases hs : step s a with
    | none =>
      rw [hs] at hrun
      cases hrun
    | some s' =>
      rw [hs] at hrun
      exact ih (h.2 s' hs) hrun

/-- **A run to its end.**  If a step goes wrong exactly where its action does not meet the condition,
and what has gone wrong stays wrong, a run comes to a good end exactly when all its actions meet the
condition. -/
theorem foldlM_iff_each {P : σ → Prop} {Ok : σ → α → Prop}
    (hend : ∀ s a, P s → step s a = none → ¬ Ok s a)
    (hstep : ∀ s a s', P s → step s a = some s' → (P s' ↔ Ok s a))
    (hback : ∀ s a s', step s a = some s' → P s' → P s) {s : σ} (h : P s) (as : List α) :
    (∃ t, as.foldlM step s = some t ∧ P t) ↔ Each step Ok s as := by
  have hfirst : ∀ (as : List α) (s t : σ), as.foldlM step s = some t → P t → P s := by
    intro as
    induction as with
    | nil =>
      intro s t hrun ht
      cases hrun
      exact ht
    | cons a as ih =>
      intro s t hrun ht
      rw [List.foldlM_cons] at hrun
      obtain ⟨s', hs, hrun⟩ := Option.bind_eq_some_iff.mp hrun
      exact hback s a s' hs (ih s' t hrun ht)
  induction as generalizing s with
  | nil => exact ⟨fun _ => trivial, fun _ => ⟨s, rfl, h⟩⟩
  | cons a as ih =>
    rw [List.foldlM_cons, Each]
    cases hs : step s a with
    | none =>
      refine ⟨fun ⟨t, hrun, _⟩ => ?_, fun hall => absurd hall.1 (hend s a h hs)⟩
      cases hrun
    | some s' =>
      change (∃ t, as.foldlM step s' = some t ∧ P t) ↔ _
      constructor
      · rintro ⟨t, hrun, ht⟩
        have hs' := hfirst as s' t hrun ht
        refine ⟨(hstep s a s' h hs).mp hs', fun s'' heq => ?_⟩
        cases heq
        exact (ih hs').mp ⟨t, hrun, ht⟩
      · rintro ⟨hok, hrest⟩
        exact (ih ((hstep s a s' h hs).mpr hok)).mpr (hrest s' rfl)

/-- **A run that never ends early**, with an invariant: if what has gone wrong stays wrong, the end is
good exactly when all the actions meet the condition. -/
theorem foldl_iff_each {f : σ → α → σ} {P I : σ → Prop} {Ok : σ → α → Prop}
    (hstep : ∀ s a, P s → I s → (P (f s a) ↔ Ok s a)) (hinv : ∀ s a, I s → I (f s a))
    (hback : ∀ s a, I s → P (f s a) → P s) {s : σ} (hp : P s) (hi : I s) (as : List α) :
    P (as.foldl f s) ↔ Each (fun s a => some (f s a)) Ok s as := by
  have hfirst : ∀ (as : List α) (s : σ), I s → P (as.foldl f s) → P s := by
    intro as
    induction as with
    | nil => exact fun _ _ h => h
    | cons a as ih => exact fun s hi h => hback s a hi (ih (f s a) (hinv s a hi) h)
  induction as generalizing s with
  | nil => exact ⟨fun _ => trivial, fun _ => hp⟩
  | cons a as ih =>
    rw [List.foldl_cons, each_cons rfl]
    constructor
    · intro h
      have hp' := hfirst as (f s a) (hinv s a hi) h
      exact ⟨(hstep s a hp hi).mp hp', (ih hp' (hinv s a hi)).mp h⟩
    · rintro ⟨hok, hrest⟩
      exact (ih ((hstep s a hp hi).mpr hok) (hinv s a hi)).mpr hrest

/-- **An invariant.**  If a step whose action meets the condition keeps the property, a run of such
actions stays in it. -/
theorem stays_of_each {P : σ → Prop} {Ok : σ → α → Prop}
    (hstep : ∀ s a s', P s → Ok s a → step s a = some s' → P s') {s : σ} (h : P s) {as : List α}
    (hok : Each step Ok s as) : Stays step P s as := by
  induction as generalizing s with
  | nil => exact h
  | cons a as ih =>
    refine ⟨h, fun s' hs' => ?_⟩
    exact ih (hstep s a s' h hok.1 hs') (hok.2 s' hs')

end Steps
