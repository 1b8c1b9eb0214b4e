import Licq.IniFile.File

/-!
# IniFile/Leftover — removing numbered parameters that are left over

After writing a numbered list, the callers of `IniFile` remove the parameters with the next numbers
until one is missing.  `unset` looks past the section, so the loop reaches every later section that
has the next number.  `Conf.Reaches` says which section that is, and a section keeps its lines
exactly when no removed parameter reaches it (`Conf.linesOf_forgetFirstAll_iff`).
-/

namespace Licq

open Text List

namespace Conf

/-- A header and the lines after it, as sections. -/
def sectsFrom (hdr : Line) (ls : List Line) : List Sect :=
  ⟨hdr, (ofLines ls).preamble⟩ :: (ofLines ls).sections

/-- The lines of the first section with the name. -/
def linesOf (name : List Char) (ss : List Sect) : List Line :=
  ((ss.find? fun s => s.Named name).map Sect.body).getD []

/-- The first section that has the parameter is the one the name selects. -/
def Reaches (name key : List Char) : List Sect → Prop
  | [] => False
  | s :: ss =>
    if s.Named name then (lookup key s.body).isSome = true
    else lookup key s.body = none ∧ Reaches name key ss

/-- Some section has the parameter. -/
def Has (key : List Char) (ss : List Sect) : Prop := ∃ s ∈ ss, (lookup key s.body).isSome

/-- Forget the parameters, in order. -/
def forgetFirstAll (keys : List (List Char)) (ss : List Sect) : List Sect :=
  keys.foldl (fun ss key => forgetFirst key ss) ss

@[simp] theorem forgetFirstAll_nil (ss : List Sect) : forgetFirstAll [] ss = ss := rfl

@[simp] theorem forgetFirstAll_cons (key : List Char) (keys : List (List Char)) (ss : List Sect) :
    forgetFirstAll (key :: keys) ss = forgetFirstAll keys (forgetFirst key ss) := rfl

variable {name key key' : List Char} {ss : List Sect}

variable {s : Sect} {keys : List (List Char)}

theorem has_cons : Has key (s :: ss) ↔ (lookup key s.body).isSome ∨ Has key ss := by
  simp [Has]

theorem reaches_cons_of_named (h : s.Named name) :
    Reaches name key (s :: ss) ↔ (lookup key s.body).isSome := by
  rw [Reaches, if_pos h]

theorem reaches_cons_of_not (h : ¬ s.Named name) :
    Reaches name key (s :: ss) ↔ lookup key s.body = none ∧ Reaches name key ss := by
  rw [Reaches, if_neg h]

theorem linesOf_cons_of_named (h : s.Named name) : linesOf name (s :: ss) = s.body := by
  rw [linesOf, find?_cons_of_pos (by simpa using h)]
  rfl

theorem linesOf_cons_of_not (h : ¬ s.Named name) : linesOf name (s :: ss) = linesOf name ss := by
  rw [linesOf, find?_cons_of_neg (by simpa using h), linesOf]

/-- Sections before the first one with the name do not matter. -/
theorem linesOf_append {a : List Sect} (h : ∀ s ∈ a, ¬ s.Named name) :
    linesOf name (a ++ ss) = linesOf name ss := by
  induction a with
  | nil => rfl
  | cons s a ih =>
    rw [cons_append, linesOf_cons_of_not (h s mem_cons_self),
      ih fun x hx => h x (mem_cons_of_mem s hx)]

/-- …and those after it do not either. -/
theorem linesOf_append_of_named {a : List Sect} (h : ∃ s ∈ a, s.Named name) (b c : List Sect) :
    linesOf name (a ++ b) = linesOf name (a ++ c) := by
  induction a with
  | nil => simp at h
  | cons s a ih =>
    by_cases hs : s.Named name
    · rw [cons_append, cons_append, linesOf_cons_of_named hs, linesOf_cons_of_named hs]
    · rw [cons_append, cons_append, linesOf_cons_of_not hs, linesOf_cons_of_not hs]
      refine ih ?_
      simpa [hs] using h

/-! ## One parameter -/

theorem forget_eq_self {body : List Line} (h : lookup key body = none) : forget key body = body :=
  eraseP_of_forall_not (by simpa using lookup_eq_none_iff.mp h)

/-- **Forgetting a parameter reaches the section a name selects, or leaves its lines.** -/
theorem linesOf_forgetFirst (h : ¬ Reaches name key ss) :
    linesOf name (forgetFirst key ss) = linesOf name ss := by
  induction ss with
  | nil => rfl
  | cons s ss ih =>
    rw [forgetFirst]
    by_cases hs : s.Named name
    · rw [reaches_cons_of_named hs] at h
      rw [if_neg h, linesOf_cons_of_named hs, linesOf_cons_of_named hs]
    · by_cases hsome : (lookup key s.body).isSome
      · have hs' : ¬ Sect.Named name ⟨s.hdr, forget key s.body⟩ := hs
        rw [if_pos hsome, linesOf_cons_of_not hs', linesOf_cons_of_not hs]
      · rw [if_neg hsome, linesOf_cons_of_not hs, linesOf_cons_of_not hs]
        exact ih fun hr => h ((reaches_cons_of_not hs).mpr
          ⟨Option.not_isSome_iff_eq_none.mp hsome, hr⟩)

theorem linesOf_forgetFirst_of_reaches (h : Reaches name key ss) :
    linesOf name (forgetFirst key ss) = forget key (linesOf name ss) ∧
      (lookup key (linesOf name ss)).isSome := by
  induction ss with
  | nil => exact False.elim h
  | cons s ss ih =>
    rw [forgetFirst]
    by_cases hs : s.Named name
    · have hsome := (reaches_cons_of_named hs).mp h
      have hs' : Sect.Named name ⟨s.hdr, forget key s.body⟩ := hs
      rw [if_pos hsome, linesOf_cons_of_named hs', linesOf_cons_of_named hs]
      exact ⟨rfl, hsome⟩
    · have h' := (reaches_cons_of_not hs).mp h
      rw [if_neg (by rw [h'.1]; decide), linesOf_cons_of_not hs, linesOf_cons_of_not hs]
      exact ih h'.2

/-- The lines a name selects only become fewer. -/
theorem length_linesOf_forgetFirst_le (name key : List Char) (ss : List Sect) :
    (linesOf name (forgetFirst key ss)).length ≤ (linesOf name ss).length := by
  by_cases h : Reaches name key ss
  · rw [(linesOf_forgetFirst_of_reaches h).1]
    exact length_forget_le _ _
  · rw [linesOf_forgetFirst h]

theorem lookup_linesOf_forgetFirst (hne : key ≠ key') (hkey : '=' ∉ key) (hkey' : '=' ∉ key') :
    lookup key (linesOf name (forgetFirst key' ss)) = lookup key (linesOf name ss) := by
  by_cases h : Reaches name key' ss
  · rw [(linesOf_forgetFirst_of_reaches h).1, lookup_forget_of_ne hne hkey hkey']
  · rw [linesOf_forgetFirst h]

/-- Forgetting one parameter does not change where another one is found. -/
theorem reaches_forgetFirst (hne : key ≠ key') (hkey : '=' ∉ key) (hkey' : '=' ∉ key') :
    Reaches name key (forgetFirst key' ss) ↔ Reaches name key ss := by
  induction ss with
  | nil => exact Iff.rfl
  | cons s ss ih =>
    rw [forgetFirst]
    by_cases hs : s.Named name
    · have hs' : Sect.Named name ⟨s.hdr, forget key' s.body⟩ := hs
      split_ifs
      · rw [reaches_cons_of_named hs', reaches_cons_of_named hs, lookup_forget_of_ne hne hkey hkey']
      · rw [reaches_cons_of_named hs, reaches_cons_of_named hs]
    · have hs' : ¬ Sect.Named name ⟨s.hdr, forget key' s.body⟩ := hs
      split_ifs
      · rw [reaches_cons_of_not hs', reaches_cons_of_not hs, lookup_forget_of_ne hne hkey hkey']
      · rw [reaches_cons_of_not hs, reaches_cons_of_not hs, ih]

theorem Reaches.has (h : Reaches name key ss) : Has key ss := by
  induction ss with
  | nil => exact False.elim h
  | cons s ss ih =>
    by_cases hs : s.Named name
    · exact ⟨s, mem_cons_self, (reaches_cons_of_named hs).mp h⟩
    · have h' := (reaches_cons_of_not hs).mp h
      obtain ⟨t, ht, hsome⟩ := ih h'.2
      exact ⟨t, mem_cons_of_mem s ht, hsome⟩

/-! ## Many parameters -/

theorem length_linesOf_forgetFirstAll_le (name : List Char) (keys : List (List Char))
    (ss : List Sect) : (linesOf name (forgetFirstAll keys ss)).length ≤ (linesOf name ss).length := by
  induction keys generalizing ss with
  | nil => exact le_refl _
  | cons key keys ih => exact (ih _).trans (length_linesOf_forgetFirst_le name key ss)

theorem lookup_linesOf_forgetFirstAll (hkey : '=' ∉ key)
    (hkeys : ∀ k ∈ keys, '=' ∉ k ∧ key ≠ k) :
    lookup key (linesOf name (forgetFirstAll keys ss)) = lookup key (linesOf name ss) := by
  induction keys generalizing ss with
  | nil => rfl
  | cons k keys ih =>
    obtain ⟨heq, hne⟩ := hkeys k mem_cons_self
    rw [forgetFirstAll_cons, ih fun x hx => hkeys x (mem_cons_of_mem k hx),
      lookup_linesOf_forgetFirst hne hkey heq]

/-- **A name keeps its lines exactly when none of the forgotten parameters reaches them.** -/
theorem linesOf_forgetFirstAll_iff (hkeys : ∀ k ∈ keys, '=' ∉ k)
    (hdistinct : keys.Nodup) : linesOf name (forgetFirstAll keys ss) = linesOf name ss
      ↔ ∀ k ∈ keys, ¬ Reaches name k ss := by
  induction keys generalizing ss with
  | nil => simp
  | cons k keys ih =>
    rw [nodup_cons] at hdistinct
    have hk : '=' ∉ k := hkeys k mem_cons_self
    have hkeys' : ∀ x ∈ keys, '=' ∉ x := fun x hx => hkeys x (mem_cons_of_mem k hx)
    rw [forgetFirstAll_cons]
    by_cases hreach : Reaches name k ss
    · -- The lines are fewer from here on.
      obtain ⟨hforget, hsome⟩ := linesOf_forgetFirst_of_reaches hreach
      have hlt := length_forget_lt (lookup_isSome_iff.mp hsome)
      have hle := length_linesOf_forgetFirstAll_le name keys (forgetFirst k ss)
      rw [hforget] at hle
      constructor
      · intro h
        rw [h] at hle
        omega
      · exact fun h => absurd hreach (h k mem_cons_self)
    · rw [← linesOf_forgetFirst hreach, ih hkeys' hdistinct.2]
      have hiff : ∀ x ∈ keys, Reaches name x (forgetFirst k ss) ↔ Reaches name x ss := fun x hx =>
        reaches_forgetFirst (fun h => hdistinct.1 (h ▸ hx)) (hkeys' x hx) hk
      constructor
      · intro h x hx
        rcases mem_cons.mp hx with rfl | hx
        · exact hreach
        · exact fun hr => h x hx ((hiff x hx).mpr hr)
      · exact fun h x hx hr => h x (mem_cons_of_mem k hx) ((hiff x hx).mp hr)

/-! ## The text -/

/-- **Forgetting a parameter in the lines after a header forgets it in the first section from
there on.** -/
theorem sectsFrom_forget (hkey : key.head? ≠ some '[') (hdr : Line) (ls : List Line) :
    sectsFrom hdr (forget key ls) = forgetFirst key (sectsFrom hdr ls) := by
  rw [sectsFrom, ofLines_forget hkey, sectsFrom, forgetFirst]
  split_ifs <;> rfl

theorem sectsFrom_forgetAll (hkeys : ∀ k ∈ keys, k.head? ≠ some '[')
    (hdr : Line) (ls : List Line) :
    sectsFrom hdr (forgetAll keys ls) = forgetFirstAll keys (sectsFrom hdr ls) := by
  induction keys generalizing ls with
  | nil => rfl
  | cons k keys ih =>
    rw [forgetAll_cons, ih fun x hx => hkeys x (mem_cons_of_mem k hx),
      sectsFrom_forget (hkeys k mem_cons_self), forgetFirstAll_cons]

/-- A parameter is in a line after the header exactly when a section has it. -/
theorem has_sectsFrom (hkey : key.head? ≠ some '[') (hdr : Line) (ls : List Line) :
    Has key (sectsFrom hdr ls) ↔ ∃ l ∈ ls, HasKey key l := by
  induction ls generalizing hdr with
  | nil => simp [Has, sectsFrom, ofLines, lookup]
  | cons l ls ih =>
    have hcons : ∀ {ls : List Line}, (∃ x ∈ l :: ls, HasKey key x) ↔
        HasKey key l ∨ ∃ x ∈ ls, HasKey key x := by simp
    have ih := ih l
    rw [sectsFrom] at ih
    rw [hcons, ← ih, sectsFrom]
    by_cases hhdr : IsHeader l
    · have hl : ¬ HasKey key l := fun hk => IniFile.not_isHeader_of_hasKey hkey hk hhdr
      rw [ofLines_header hhdr, has_cons]
      simp [hl, lookup]
    · obtain rfl | hne := eq_or_ne l []
      · have hl : ¬ HasKey key [] := fun hk => hk.ne_nil rfl
        rw [ofLines_blank, has_cons, has_cons]
        simp [hl]
      · rw [ofLines_cons hhdr hne, has_cons, has_cons, lookup_isSome_iff, lookup_isSome_iff, hcons,
          or_assoc]

end Conf

end Licq
