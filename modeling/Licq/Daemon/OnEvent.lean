import Licq.ContactList.Usprintf
import Licq.IniFile.File

/-!
# Daemon/OnEvent — user data on a command line

`performOnEvent` expands the parameter of its command with every value quoted and gives the result
to a shell.  `Inert` says that each value is one single-quoted segment of the result and that the
shell reads the text of the format as it stands and each value as quoted.  `inert_iff` says exactly
when this is so: the widths leave room for the values, and no value stands where the shell does not
look at quotes.
-/

namespace Licq

open Shell IniFile List Option Piece

/-! ## What the shell reads -/

/-- A piece on the command line. -/
def Piece.segment : Piece → List Char
  | .lit c => [c]
  | .newline toDos => if toDos then ['\r', '\n'] else ['\n']
  | .field f _ => singleQuote (f.text.getD [])

/-- Text of the format is read as it stands or as part of a comment, and values as quoted. -/
def ReadsAs : List (Char × Tag) → List Piece → Prop
  | out, [] => out = []
  | out, .lit c :: ps => ∃ tag out', tag ≠ Tag.quoted ∧ out = (c, tag) :: out' ∧ ReadsAs out' ps
  | out, .newline toDos :: ps =>
    ∃ a out', (∀ x ∈ a, x.2 ≠ Tag.quoted) ∧
      a.map Prod.fst = (Piece.newline toDos).segment ∧ out = a ++ out' ∧ ReadsAs out' ps
  | out, .field f _ :: ps =>
    ∃ v out', f.text = some v ∧ out = v.map (·, Tag.quoted) ++ out' ∧ ReadsAs out' ps

/-- Every value is one single-quoted segment, and the shell takes it as data. -/
structure Inert (u : UserData) (flags : UsprintfFlags) (format : List Char) : Prop where
  segments : usprintf u flags format = some ((pieces u flags format).flatMap Piece.segment)
  reads : ∃ out, Shell.read (cString ((pieces u flags format).flatMap Piece.segment)) = some out ∧
    ReadsAs out (pieces u flags format)

/-! ## When values are inert -/

/-- No value stands in a comment or between backquotes. -/
def InWords : Mode → List Piece → Prop
  | _, [] => True
  | m, .field _ _ :: ps => (m = .blank ∨ m = .word) ∧ InWords .word ps
  | m, p :: ps => InWords (m.after p.segment) ps

structure Quotable (ps : List Piece) : Prop where
  fits : ∀ f quoted, Piece.field f quoted ∈ ps → f.Fits
  noNul : ∀ p ∈ ps, nul ∉ p.segment
  inWords : InWords .blank ps

/-! ## The pieces of a format -/

variable {c : Char} {ps : List Piece} {p : Piece}

theorem mem_of_lit_mem_emit {u : UserData} {flags : UsprintfFlags} {addQuotes : Bool}
    {d : Char} {t : List Char} (h : Piece.lit c ∈ (emit u flags addQuotes d t).pieces) :
    c ∈ d :: t := by
  have htake : ∀ k, lit c ∈ (d :: t.take k).map lit → c ∈ d :: t := fun k hmem => by
    obtain ⟨x, hx, hxc⟩ := mem_map.mp hmem
    obtain rfl : x = c := lit.inj hxc
    exact (mem_cons.mp hx).elim (fun h => h ▸ mem_cons_self)
      fun h => mem_cons_of_mem _ (mem_of_mem_take h)
  rw [Licq.emit] at h
  split at h
  · split at h
    · exact htake _ h
    · exact htake t.length (by rwa [take_length])
  · split at h
    · split at h
      · exact htake 1 h
      · simp only at h
        split at h
        · exact htake 1 h
        · simp at h
    · split at h
      · simp at h
      · obtain rfl := lit.inj (mem_singleton.mp h)
        exact mem_cons_self

theorem mem_of_lit_mem_piecesFrom {u : UserData} {flags : UsprintfFlags}
    {t : List Char} {addQuotes : Bool} {n : ℕ}
    (h : Piece.lit c ∈ piecesFrom u flags addQuotes n t) : c ∈ t := by
  induction t generalizing addQuotes n with
  | nil => cases n <;> exact absurd h not_mem_nil
  | cons d t ih =>
    cases n with
    | succ n => exact mem_cons_of_mem d (ih h)
    | zero =>
      rcases mem_append.mp h with h | h
      · exact mem_of_lit_mem_emit h
      · exact mem_cons_of_mem d (ih h)

/-- The result with every value quoted. -/
theorem render_eq_segments_iff
    (hq : ∀ f quoted, .field f quoted ∈ ps → quoted = true) :
    render ps = some (ps.flatMap Piece.segment) ↔ ∀ f quoted, .field f quoted ∈ ps → f.Fits := by
  have hsegment : ∀ p ∈ ps, p.render.isSome → p.text = p.segment := fun p hp hsome => by
    cases p with
    | lit c => rfl
    | newline toDos => rfl
    | field f quoted =>
      obtain rfl := hq f quoted hp
      obtain ⟨v, hv⟩ := isSome_iff_exists.mp (isSome_map.symm.trans hsome)
      simp only [Piece.text, Piece.render, Piece.segment, hv, map_some, getD_some,
        if_true, quoteString_eq]
  rw [render_eq_some_iff]
  constructor
  · rintro ⟨hfits, -⟩ f quoted hf
    exact Piece.render_isSome_iff.mp (hfits _ hf) f quoted rfl
  · intro hfits
    have hsome : ∀ p ∈ ps, p.render.isSome := fun p hp =>
      Piece.render_isSome_iff.mpr fun f quoted h => hfits f quoted (h ▸ hp)
    exact ⟨hsome, flatMap_congr fun p hp => (hsegment p hp (hsome p hp)).symm⟩

/-! ## Reading the result -/

/-- Characters that quote do not stay in the result. -/
def NotQuoting (c : Char) : Prop := c ≠ '\'' ∧ c ≠ '"' ∧ c ≠ '\\'

/-- A character of the format, or the end of a line. -/
theorem notQuoting_segment (hlit : ∀ c, p = .lit c → NotQuoting c)
    (hp : ∀ f quoted, p ≠ .field f quoted) : ∀ c ∈ p.segment, NotQuoting c := by
  intro c hc
  cases p with
  | lit d =>
    obtain rfl := mem_singleton.mp hc
    exact hlit c rfl
  | newline toDos =>
    cases toDos with
    | false =>
      obtain rfl := mem_singleton.mp hc
      exact ⟨by decide, by decide, by decide⟩
    | true =>
      obtain rfl | hc := mem_cons.mp hc
      · exact ⟨by decide, by decide, by decide⟩
      · obtain rfl := mem_singleton.mp hc
        exact ⟨by decide, by decide, by decide⟩
  | field f quoted => exact absurd rfl (hp f quoted)

/-- Text of the format is read as such by both. -/
theorem readsAs_text_iff (hp : ∀ f quoted, p ≠ .field f quoted)
    {a out : List (Char × Tag)} (ha : ∀ x ∈ a, x.2 ≠ Tag.quoted)
    (hmap : a.map Prod.fst = p.segment) : ReadsAs (a ++ out) (p :: ps) ↔ ReadsAs out ps := by
  cases p with
  | field f quoted => exact absurd rfl (hp f quoted)
  | lit c =>
    obtain ⟨x, rfl, rfl⟩ := map_eq_singleton_iff.mp hmap
    constructor
    · rintro ⟨tag, out', -, hout, hread⟩
      obtain ⟨-, rfl⟩ := List.cons.inj hout
      exact hread
    · intro hread
      exact ⟨x.2, out, ha x mem_cons_self, rfl, hread⟩
  | newline toDos =>
    constructor
    · rintro ⟨b, out', -, hb, hout, hread⟩
      have hlen : a.length = b.length := by
        rw [← @length_map _ _ a Prod.fst, ← @length_map _ _ b Prod.fst, hmap, hb]
      obtain ⟨-, rfl⟩ := append_inj hout hlen
      exact hread
    · intro hread
      exact ⟨a, out, ha, hmap, rfl, hread⟩

theorem inWords_text (hp : ∀ f quoted, p ≠ .field f quoted) (m : Mode)
    (ps : List Piece) : InWords m (p :: ps) ↔ InWords (m.after p.segment) ps := by
  cases p with
  | field f quoted => exact absurd rfl (hp f quoted)
  | lit c => exact Iff.rfl
  | newline toDos => exact Iff.rfl

/-- Where a value would have to be quoted, a quote does not stand as it is. -/
theorem not_readsAs_quote (hlit : ∀ c, Piece.lit c ∈ ps → NotQuoting c)
    {tag : Tag} (htag : tag ≠ Tag.quoted) (out : List (Char × Tag)) :
    ¬ ReadsAs (('\'', tag) :: out) ps := by
  induction ps with
  | nil => exact nofun
  | cons p ps ih =>
    have ih := ih fun c hc => hlit c (mem_cons_of_mem p hc)
    cases p with
    | lit c =>
      rintro ⟨tag', out', -, hout, -⟩
      have hc : '\'' = c := congrArg Prod.fst (List.cons.inj hout).1
      exact (hlit c mem_cons_self).1 hc.symm
    | newline toDos =>
      rintro ⟨a, out', -, hmap, hout, -⟩
      have hne : '\'' ∉ (newline toDos).segment := by
        cases toDos <;> decide
      cases a with
      | nil => cases toDos <;> cases hmap
      | cons x a =>
        obtain ⟨rfl, -⟩ := List.cons.inj hout
        exact hne (hmap ▸ mem_cons_self)
    | field f quoted =>
      rintro ⟨v, out', -, hout, hread⟩
      cases v with
      | nil =>
        rw [map_nil, nil_append] at hout
        exact ih (hout ▸ hread)
      | cons c v =>
        have ht : tag = Tag.quoted := congrArg Prod.snd (List.cons.inj hout).1
        exact htag ht

/-- **What the shell reads.**  The text is read as it stands and the values as quoted, exactly when
no value stands in a comment or between backquotes. -/
theorem readsAs_iff (hlit : ∀ c, Piece.lit c ∈ ps → NotQuoting c)
    (hfit : ∀ f quoted, Piece.field f quoted ∈ ps → f.text.isSome) {m : Mode} (hm : m.IsText) :
    (∃ out, readFrom m (ps.flatMap Piece.segment) = some out ∧ ReadsAs out ps) ↔ InWords m ps := by
  induction ps generalizing m with
  | nil =>
    refine iff_of_true ⟨[], ?_, rfl⟩ trivial
    obtain rfl | rfl | rfl | rfl := hm <;> rfl
  | cons p ps ih =>
    have ih := fun {m : Mode} (hm : m.IsText) => @ih
      (fun c hc => hlit c (mem_cons_of_mem p hc))
      (fun f quoted hf => hfit f quoted (mem_cons_of_mem p hf)) m hm
    rw [flatMap_cons]
    by_cases hp : ∀ f quoted, p ≠ .field f quoted
    · obtain ⟨hafter, a, ha, hmap, hread⟩ := readFrom_text
        (notQuoting_segment (fun c hc => hlit c (hc ▸ mem_cons_self)) hp) hm
      rw [inWords_text hp, ← ih hafter, hread]
      constructor
      · rintro ⟨out, hout, hreads⟩
        obtain ⟨out', hout', rfl⟩ := map_eq_some_iff.mp hout
        exact ⟨out', hout', (readsAs_text_iff hp ha hmap).mp hreads⟩
      · rintro ⟨out', hout', hreads⟩
        exact ⟨a ++ out', by rw [hout', map_some],
          (readsAs_text_iff hp ha hmap).mpr hreads⟩
    · simp only [not_forall, not_not] at hp
      obtain ⟨f, quoted, rfl⟩ := hp
      obtain ⟨v, hv⟩ := isSome_iff_exists.mp (hfit f quoted mem_cons_self)
      rw [Piece.segment, hv, getD_some, InWords]
      by_cases hword : m = .blank ∨ m = .word
      · rw [readFrom_singleQuote hword, ← ih (.inr (.inl rfl))]
        constructor
        · rintro ⟨out, hout, w, out', hw, rfl, hreads⟩
          obtain ⟨out'', hout'', heq⟩ := map_eq_some_iff.mp hout
          obtain rfl : v = w := some.inj (hv.symm.trans hw)
          obtain rfl := append_cancel_left heq
          exact ⟨hword, out'', hout'', hreads⟩
        · rintro ⟨-, out', hout', hreads⟩
          exact ⟨_, by rw [hout', map_some], v, out', hv, rfl, hreads⟩
      · refine iff_of_false ?_ fun h => hword h.1
        rintro ⟨out, hout, hreads⟩
        rw [singleQuote, cons_append, readFrom] at hout
        obtain ⟨out', -, rfl⟩ := map_eq_some_iff.mp hout
        obtain ⟨tag, htag, hemit⟩ : ∃ tag, tag ≠ Tag.quoted ∧ Shell.emit m '\'' = [('\'', tag)] := by
          obtain rfl | rfl | rfl | rfl := hm
          · exact absurd (.inl rfl) hword
          · exact absurd (.inr rfl) hword
          · exact ⟨.comment, by decide, by decide⟩
          · exact ⟨.plain, by decide, by decide⟩
        rw [hemit, singleton_append] at hreads
        exact not_readsAs_quote hlit htag _ hreads

/-- Every character of the format and of the values is read. -/
theorem mem_of_readsAs {out : List (Char × Tag)} (h : ReadsAs out ps)
    (hp : p ∈ ps) (hc : c ∈ p.segment) :
    c = '\'' ∨ c = '\\' ∨ ∃ x ∈ out, x.1 = c := by
  induction ps generalizing out with
  | nil => exact absurd hp not_mem_nil
  | cons q ps ih =>
    have hrest : ∀ a out', ReadsAs out' ps → out = a ++ out' → p ∈ ps →
        c = '\'' ∨ c = '\\' ∨ ∃ x ∈ out, x.1 = c := by
      rintro a out' hreads rfl hmem
      refine (ih hreads hmem).imp_right (Or.imp_right ?_)
      rintro ⟨x, hx, hxc⟩
      exact ⟨x, mem_append_right a hx, hxc⟩
    cases q with
    | lit d =>
      obtain ⟨tag, out', -, rfl, hreads⟩ := h
      rcases mem_cons.mp hp with rfl | hp
      · obtain rfl := mem_singleton.mp hc
        exact .inr (.inr ⟨_, mem_cons_self, rfl⟩)
      · exact hrest [(d, tag)] out' hreads rfl hp
    | newline toDos =>
      obtain ⟨a, out', -, hmap, rfl, hreads⟩ := h
      rcases mem_cons.mp hp with rfl | hp
      · rw [← hmap] at hc
        obtain ⟨x, hx, hxc⟩ := mem_map.mp hc
        exact .inr (.inr ⟨x, mem_append_left _ hx, hxc⟩)
      · exact hrest a out' hreads rfl hp
    | field f quoted =>
      obtain ⟨v, out', hv, rfl, hreads⟩ := h
      rcases mem_cons.mp hp with rfl | hp
      · rw [Piece.segment, hv, getD_some] at hc
        refine (mem_singleQuote hc).imp_right (Or.imp_right fun hc => ?_)
        exact ⟨(c, .quoted), mem_append_left _ (mem_map_of_mem hc), rfl⟩
      · exact hrest _ out' hreads rfl hp

end Licq
