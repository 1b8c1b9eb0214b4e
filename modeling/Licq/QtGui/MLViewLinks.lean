import Licq.QtGui.MLView

/-!
# QtGui/MLViewLinks — the links of a text and its highlights

The links of a text, and the matches to highlight in it, in the order in which the loop of
`toRichText` comes to them (`links` and `marks`), as lists that can be computed from the expressions
alone; and the same as relations, for the run.
-/

open Text (Expression)

namespace Licq.MLView

variable {n : ℕ}

/-! ## Links and highlights -/

/-- A link, with the match of the other kind that is pending at its start. -/
structure Link where
  kind : Kind
  start : ℕ
  stop : ℕ
  inner : Pending

/-- A highlight. -/
structure Mark where
  start : ℕ
  stop : ℕ

/-- A match that is looked for from a position. -/
def pending (exprs : Option (Kind → LinkExpression n)) (k : Kind) (p : ℕ) : Pending :=
  match exprs with
  | none => .search
  | some e =>
    match (e k).indexOf p with
    | none => .none
    | some (q, l) => .found q l

/-- The first link from a position: the earlier match, and the URL where both begin there. -/
def nextLink (exprs : Option (Kind → LinkExpression n)) (p : ℕ) : Option Link :=
  match pending exprs .url p, pending exprs .mail p with
  | .found q l, .found r m =>
    if q ≤ r then some ⟨.url, q, q + l, .found r m⟩ else some ⟨.mail, r, r + m, .found q l⟩
  | .found q l, inner => some ⟨.url, q, q + l, inner⟩
  | inner, .found r m => some ⟨.mail, r, r + m, inner⟩
  | _, _ => none

/-- The links, each looked for from the end of the one before. -/
def links (exprs : Option (Kind → LinkExpression n)) : ℕ → ℕ → List Link
  | 0, _ => []
  | fuel + 1, p =>
    match nextLink exprs p with
    | none => []
    | some link => link :: links exprs fuel link.stop

/-- The edges of links. -/
def edges (ls : List Link) : List ℕ := ls.flatMap fun link => [link.start, link.stop]

/-- The match to highlight from a position, unless it is empty. -/
def nextMark (highlight : Option (Expression n)) (p : ℕ) : Option Mark :=
  match highlight.bind (·.indexOf p) with
  | none => none
  | some (q, l) => if l = 0 then none else some ⟨q, q + l⟩

/-- The highlights, each looked for from the end of the one before; where the match is empty, again
from the next edge of a link. -/
def marks (highlight : Option (Expression n)) : ℕ → List ℕ → ℕ → List Mark
  | 0, _, _ => []
  | fuel + 1, bs, p =>
    match nextMark highlight p, bs with
    | some m, bs => m :: marks highlight fuel bs m.stop
    | none, [] => []
    | none, b :: bs => marks highlight fuel bs (max b p)

/-- From the other match inside of a link on a highlight begins, with text behind the link; or one
that began before ends there, before the link does. -/
def Blocks (n : ℕ) (link : Link) (m : Mark) : Prop :=
  match link.inner with
  | .found q _ =>
    (q ≤ m.start ∧ m.start < link.stop ∧ link.stop < n) ∨
      (m.start < q ∧ q < m.stop ∧ m.stop < link.stop)
  | _ => False

/-- No link blocks a highlight. -/
def Clear (n : ℕ) (ls : List Link) (ms : List Mark) : Prop :=
  ∀ link ∈ ls, ∀ m ∈ ms, ¬ Blocks n link m

/-! ## Links -/

variable {exprs : Option (Kind → LinkExpression n)} {k : Kind} {p p' : ℕ} {link : Link}
  {ls : List Link}

theorem pending_bounds {q l : ℕ} (h : pending exprs k p = .found q l) :
    p ≤ q ∧ l ≠ 0 ∧ q + l ≤ n := by
  cases exprs with
  | none => cases h
  | some e =>
    cases hfind : (e k).indexOf p with
    | none =>
      simp only [pending, hfind] at h
      cases h
    | some found =>
      obtain ⟨r, m⟩ := found
      simp only [pending, hfind] at h
      obtain ⟨rfl, rfl⟩ := Pending.found.inj h
      have hmatch := (Expression.indexOf_eq_some_iff.mp hfind).2.1
      exact ⟨Expression.le_of_indexOf hfind, (e k).ne_zero hmatch, (e k).fits hmatch⟩

/-- A later search gives the same match, if it is not behind it. -/
theorem pending_of_le (hp : p ≤ p') (h : (pending exprs k p).AtLeast p') :
    pending exprs k p' = pending exprs k p := by
  cases exprs with
  | none => rfl
  | some e =>
    have hfind : (e k).indexOf p' = (e k).indexOf p := by
      refine Expression.indexOf_of_le hp fun q l hfind => ?_
      simpa only [pending, hfind, Pending.AtLeast] using h
    simp only [pending, hfind]

theorem pending_ne_search {e : Kind → LinkExpression n} : pending (some e) k p ≠ .search := by
  intro h
  rw [pending] at h
  split at h <;> cases h

/-- The first link is the match of its kind, and the other one is pending behind its start. -/
theorem nextLink_spec (h : nextLink exprs p = some link) :
    (∃ l, pending exprs link.kind p = .found link.start l ∧ link.stop = link.start + l) ∧
      link.inner = pending exprs link.kind.other p ∧ link.inner.AtLeast link.start := by
  rw [nextLink] at h
  cases hurl : pending exprs .url p with
  | found q l =>
    cases hmail : pending exprs .mail p with
    | found r m =>
      simp only [hurl, hmail] at h
      split_ifs at h with hle
      · cases h
        exact ⟨⟨l, hurl, rfl⟩, hmail.symm, hle⟩
      · cases h
        exact ⟨⟨m, hmail, rfl⟩, hurl.symm, (Nat.lt_of_not_le hle).le⟩
    | search | none =>
      simp only [hurl, hmail] at h
      cases h
      exact ⟨⟨l, hurl, rfl⟩, hmail.symm, trivial⟩
  | search | none =>
    cases hmail : pending exprs .mail p with
    | found r m =>
      simp only [hurl, hmail] at h
      cases h
      exact ⟨⟨m, hmail, rfl⟩, hurl.symm, trivial⟩
    | search | none =>
      simp only [hurl, hmail] at h
      cases h

theorem nextLink_none (h : nextLink exprs p = none) (k : Kind) (q l : ℕ) :
    pending exprs k p ≠ .found q l := by
  intro hfound
  rw [nextLink] at h
  cases k with
  | url =>
    rw [hfound] at h
    cases hmail : pending exprs .mail p with
    | found r m =>
      simp only [hmail] at h
      split_ifs at h
    | search | none =>
      simp only [hmail] at h
      cases h
  | mail =>
    rw [hfound] at h
    cases hurl : pending exprs .url p with
    | found r m =>
      simp only [hurl] at h
      split_ifs at h
    | search | none =>
      simp only [hurl] at h
      cases h

theorem nextLink_bounds (h : nextLink exprs p = some link) :
    p ≤ link.start ∧ link.start < link.stop ∧ link.stop ≤ n := by
  obtain ⟨⟨l, hfound, hstop⟩, -⟩ := nextLink_spec h
  obtain ⟨hle, hne, hfits⟩ := pending_bounds hfound
  omega

/-- No match begins before the first link. -/
theorem pending_atLeast (h : ∀ link, nextLink exprs p = some link → p' ≤ link.start) (k : Kind) :
    (pending exprs k p).AtLeast p' := by
  cases hnext : nextLink exprs p with
  | none =>
    have hnone := nextLink_none hnext k
    cases hpos : pending exprs k p with
    | found q l => exact absurd hpos (hnone q l)
    | search | none => trivial
  | some link =>
    obtain ⟨⟨l, hfound, -⟩, hinner, hleast⟩ := nextLink_spec hnext
    have hle := h link hnext
    by_cases hk : k = link.kind
    · rw [hk, hfound]
      exact hle
    · have hother : k = link.kind.other := by
        cases k <;> cases hkind : link.kind <;> first | rfl | exact absurd hkind.symm hk
      rw [hother, ← hinner]
      cases hpos : link.inner with
      | found q l =>
        rw [hpos] at hleast
        exact hle.trans hleast
      | search | none => trivial

/-- The first link stays the first one as long as its start is not passed. -/
theorem nextLink_of_le (hp : p ≤ p') (h : ∀ link, nextLink exprs p = some link → p' ≤ link.start) :
    nextLink exprs p' = nextLink exprs p := by
  have hpos := fun k => pending_of_le hp (pending_atLeast h k)
  rw [nextLink, nextLink, hpos .url, hpos .mail]

/-- The links from a position on. -/
inductive LinksFrom (exprs : Option (Kind → LinkExpression n)) : ℕ → List Link → Prop
  | nil {p : ℕ} : nextLink exprs p = none → LinksFrom exprs p []
  | cons {p : ℕ} {link : Link} {ls : List Link} : nextLink exprs p = some link →
      LinksFrom exprs link.stop ls → LinksFrom exprs p (link :: ls)

theorem linksFrom_links {fuel p : ℕ} (h : n < p + fuel) :
    LinksFrom exprs p (links exprs fuel p) := by
  induction fuel generalizing p with
  | zero =>
    refine .nil ?_
    cases hnext : nextLink exprs p with
    | none => rfl
    | some link =>
      have := nextLink_bounds hnext
      omega
  | succ fuel ih =>
    rw [links]
    cases hnext : nextLink exprs p with
    | none => exact .nil hnext
    | some link =>
      have := nextLink_bounds hnext
      exact .cons hnext (ih (by omega))

theorem LinksFrom.bounds (h : LinksFrom exprs p ls) : ∀ link ∈ ls,
    p ≤ link.start ∧ link.start < link.stop ∧ link.stop ≤ n ∧ link.inner.AtLeast link.start := by
  induction h with
  | nil => exact nofun
  | cons hnext _ ih =>
    obtain ⟨hle, hlt, hfits⟩ := nextLink_bounds hnext
    refine List.forall_mem_cons.mpr ⟨⟨hle, hlt, hfits, (nextLink_spec hnext).2.2⟩, ?_⟩
    intro link hlink
    obtain ⟨hstart, hrest⟩ := ih link hlink
    exact ⟨hle.trans (hlt.le.trans hstart), hrest⟩

theorem LinksFrom.of_le (h : LinksFrom exprs p ls) (hp : p ≤ p')
    (hhead : ∀ link, ls.head? = some link → p' ≤ link.start) : LinksFrom exprs p' ls := by
  cases h with
  | nil hnext =>
    have hsame := nextLink_of_le hp fun link hlink => by
      rw [hnext] at hlink
      cases hlink
    exact .nil (hsame.trans hnext)
  | cons hnext hrest =>
    have hsame := nextLink_of_le hp fun link hlink => hhead link (hnext.symm.trans hlink)
    exact .cons (hsame.trans hnext) hrest

/-! ## Highlights -/

variable {highlight : Option (Expression n)} {m : Mark} {ms : List Mark} {bs : List ℕ} {b : ℕ}

/-- The highlights from a position on. -/
inductive MarksFrom (highlight : Option (Expression n)) : List ℕ → ℕ → List Mark → Prop
  | nil {p : ℕ} : nextMark highlight p = none → MarksFrom highlight [] p []
  | skip {b p : ℕ} {bs : List ℕ} {ms : List Mark} : nextMark highlight p = none →
      MarksFrom highlight bs (max b p) ms → MarksFrom highlight (b :: bs) p ms
  | cons {p : ℕ} {bs : List ℕ} {m : Mark} {ms : List Mark} : nextMark highlight p = some m →
      MarksFrom highlight bs m.stop ms → MarksFrom highlight bs p (m :: ms)

theorem nextMark_bounds (h : nextMark highlight p = some m) :
    p ≤ m.start ∧ m.start < m.stop ∧ m.stop ≤ n := by
  cases highlight with
  | none => cases h
  | some e =>
    rw [nextMark, Option.bind_some] at h
    cases hfind : e.indexOf p with
    | none =>
      rw [hfind] at h
      cases h
    | some found =>
      obtain ⟨q, l⟩ := found
      simp only [hfind, Option.ite_none_left_eq_some] at h
      cases h.2
      have hle := Expression.le_of_indexOf hfind
      have hfits := Expression.fits_of_indexOf hfind
      exact ⟨hle, by simp only; omega, hfits⟩

theorem marksFrom_marks {fuel p : ℕ} {bs : List ℕ} (h : n + bs.length < p + fuel) :
    MarksFrom highlight bs p (marks highlight fuel bs p) := by
  induction fuel generalizing bs p with
  | zero =>
    obtain hp : n < p := by omega
    have hnone : ∀ {p : ℕ}, n < p → nextMark highlight p = none := by
      intro p hp
      cases hnext : nextMark highlight p with
      | none => rfl
      | some m =>
        have := nextMark_bounds hnext
        omega
    induction bs generalizing p with
    | nil => exact .nil (hnone hp)
    | cons b bs ih =>
      rw [List.length_cons] at h
      exact .skip (hnone hp) (ih (by omega) (by omega))
  | succ fuel ih =>
    cases hnext : nextMark highlight p with
    | some m =>
      have := nextMark_bounds hnext
      simp only [marks, hnext]
      exact .cons hnext (ih (by omega))
    | none =>
      cases bs with
      | nil =>
        simp only [marks, hnext]
        exact .nil hnext
      | cons b bs =>
        rw [List.length_cons] at h
        simp only [marks, hnext]
        exact .skip hnext (ih (by omega))

theorem MarksFrom.bounds (h : MarksFrom highlight bs p ms) :
    ∀ m ∈ ms, p ≤ m.start ∧ m.start < m.stop ∧ m.stop ≤ n := by
  induction h with
  | nil => exact nofun
  | skip _ _ ih => exact fun m hm => ⟨(le_max_right _ _).trans (ih m hm).1, (ih m hm).2⟩
  | cons hnext _ ih =>
    obtain ⟨hle, hlt, hfits⟩ := nextMark_bounds hnext
    refine List.forall_mem_cons.mpr ⟨⟨hle, hlt, hfits⟩, fun m hm => ?_⟩
    exact ⟨hle.trans (hlt.le.trans (ih m hm).1), (ih m hm).2⟩

theorem MarksFrom.of_nextMark (h : MarksFrom highlight bs p ms)
    (hnext : nextMark highlight p = some m) :
    ∃ ms', ms = m :: ms' ∧ MarksFrom highlight bs m.stop ms' := by
  cases h with
  | nil hnone =>
    rw [hnext] at hnone
    cases hnone
  | skip hnone _ =>
    rw [hnext] at hnone
    cases hnone
  | cons hsome hrest =>
    cases hnext.symm.trans hsome
    exact ⟨_, rfl, hrest⟩

/-- An edge that was passed makes no difference. -/
theorem MarksFrom.passed (h : MarksFrom highlight (b :: bs) p ms) (hb : b ≤ p) :
    MarksFrom highlight bs p ms := by
  generalize hcons : b :: bs = bs' at h
  induction h with
  | nil => cases hcons
  | skip _ hrest =>
    obtain ⟨rfl, rfl⟩ := List.cons_eq_cons.mp hcons
    rwa [max_eq_right hb] at hrest
  | cons hnext _ ih =>
    have hbounds := nextMark_bounds hnext
    exact .cons hnext (ih (by omega) hcons)

theorem MarksFrom.eq_nil {e : Expression n} (hnone : e.indexOf p = none)
    (h : MarksFrom (some e) bs p ms) : ms = [] := by
  induction h with
  | nil => rfl
  | skip _ _ ih =>
    refine ih ?_
    have hall := Expression.indexOf_eq_none_iff.mp hnone
    exact Expression.indexOf_eq_none_iff.mpr fun q hq => hall q ((le_max_right _ _).trans hq)
  | cons hnext =>
    rw [nextMark, Option.bind_some, hnone] at hnext
    cases hnext

end Licq.MLView
