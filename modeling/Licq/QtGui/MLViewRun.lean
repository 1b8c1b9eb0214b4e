import Licq.QtGui.MLViewLinks

/-!
# QtGui/MLViewRun — the run of the loop over links and highlights

A state of the loop is between two links or within one, and within a highlight or not; what is left
are the links and the highlights to come (`At`).  A round of the loop goes to an edge of one of
them: it begins or ends a highlight, where no edge of a link is in between, or a link, and what is
left then is less.
-/

open Text (Expression)

namespace Licq.MLView

variable {n : ℕ} {exprs : Option (Kind → LinkExpression n)} {highlight : Option (Expression n)}
  {st : State} {op : Option Link} {ls : List Link} {cur : Option Mark} {ms : List Mark}

/-! ## Where the loop is -/

/-- A match that is pending, or looked for. -/
def Pending.Looks (x y : Pending) : Prop := x = .search ∨ x = y

/-- The loop is between two links or within one, with the links to come. -/
inductive AtLinks (exprs : Option (Kind → LinkExpression n)) (R : Pending → Pending → Prop)
    (st : State) : Option Link → List Link → Prop
  | between {ls : List Link} (hstop : ∀ k, (st.link k).stop = 0)
      (hpos : ∀ k, R (st.link k).pos (pending exprs k st.lastpos))
      (hrest : LinksFrom exprs st.lastpos ls) : AtLinks exprs R st none ls
  | within {link : Link} {ls : List Link} (hstop : (st.link link.kind).stop = link.stop)
      (hpos : R (st.link link.kind).pos (pending exprs link.kind link.stop))
      (hother : (st.link link.kind.other).stop = 0)
      (hinner : (st.link link.kind.other).pos = link.inner) (hsearch : link.inner ≠ .search)
      (hstart : link.start ≤ st.lastpos) (hend : st.lastpos ≤ link.stop)
      (hlt : link.start < link.stop) (hfits : link.stop ≤ n)
      (hleast : link.inner.AtLeast link.start) (hrest : LinksFrom exprs link.stop ls) :
      AtLinks exprs R st (some link) ls

/-- The highlights to come, from what is pending. -/
def Pending.Looked (highlight : Option (Expression n)) (bs : List ℕ) (p : ℕ) :
    Pending → List Mark → Prop
  | .search, ms => MarksFrom highlight bs p ms
  | .none, ms => ms = []
  | .found a l, ms => ∃ ms', ms = ⟨a, a + l⟩ :: ms' ∧ p ≤ a ∧ l ≠ 0 ∧ a + l ≤ n ∧
      MarksFrom highlight bs (a + l) ms'

/-- The loop is within a highlight or not, with the highlights to come. -/
structure AtMarks (highlight : Option (Expression n)) (st : State) (bs : List ℕ)
    (cur : Option Mark) (ms : List Mark) : Prop where
  stop : st.hl.stop = cur.elim 0 Mark.stop
  cur : ∀ m ∈ cur, m.start ≤ st.lastpos ∧ st.lastpos ≤ m.stop ∧ m.start < m.stop ∧ m.stop ≤ n
  looked : st.hl.pos.Looked highlight bs (max st.hl.stop st.lastpos) ms

/-- The edges to come. -/
def edgesFrom : Option Link → List Link → List ℕ
  | some link, ls => link.stop :: edges ls
  | none, ls => edges ls

/-- No link begins or ends before a position, and no match inside of one. -/
def Free : Option Link → List Link → ℕ → Prop
  | some link, _, x => x ≤ link.stop ∧ link.inner.AtLeast x
  | none, link :: _, x => x ≤ link.start
  | none, [], _ => True

/-- Where the loop is. -/
structure At (exprs : Option (Kind → LinkExpression n)) (highlight : Option (Expression n))
    (R : Pending → Pending → Prop) (st : State) (op : Option Link) (ls : List Link)
    (cur : Option Mark) (ms : List Mark) : Prop where
  links : AtLinks exprs R st op ls
  marks : AtMarks highlight st (edgesFrom op ls) cur ms
  free : ∀ m ∈ cur, Free op ls (m.start + 1)
  le : st.lastpos ≤ n

/-! ## The searches -/

variable {k : Kind} {p : ℕ} {bs : List ℕ} {q : Pending} {m : Mark}

theorem pending_eq_search_iff : pending exprs k p = .search ↔ exprs = none := by
  cases exprs with
  | none => exact iff_of_true rfl rfl
  | some e => exact iff_of_false pending_ne_search (Option.some_ne_none e)

theorem Stream.next_of_ne {x : Stream} (h : x.pos ≠ .search) (e : Option (Expression n)) (p : ℕ) :
    x.next e p = x := by
  rw [Stream.next]
  exact fun _ hpos _ => h hpos

theorem Stream.next_none (x : Stream) (p : ℕ) : x.next (none : Option (Expression n)) p = x := by
  rw [Stream.next]
  exact nofun

theorem Stream.next_stop (x : Stream) (e : Option (Expression n)) (p : ℕ) :
    (x.next e p).stop = x.stop := by
  simp only [Stream.next]
  split
  · split
    · rfl
    · split_ifs <;> rfl
  · rfl

/-- The match of a link that is pending, or was looked for. -/
theorem Stream.next_pos {x : Stream}
    (h : Pending.Looks x.pos (pending exprs k (max x.stop p))) :
    (x.next (exprs.map fun e => (e k).toExpression) p).pos = pending exprs k (max x.stop p) := by
  rcases h with hsearch | hpos
  · cases exprs with
    | none =>
      rw [Option.map_none, Stream.next_none, hsearch]
      rfl
    | some e =>
      simp only [Option.map_some, Stream.next, hsearch, pending]
      cases hfind : (e k).indexOf (max x.stop p) with
      | none => rfl
      | some found =>
        obtain ⟨q, l⟩ := found
        have hne := (e k).ne_zero (Expression.indexOf_eq_some_iff.mp hfind).2.1
        simp only [if_neg hne]
  · by_cases hnone : pending exprs k (max x.stop p) = .search
    · have hexprs := pending_eq_search_iff.mp hnone
      subst hexprs
      rw [Option.map_none, Stream.next_none, hpos]
    · rw [Stream.next_of_ne (hpos ▸ hnone), hpos]

/-- The highlight that is pending, or was looked for. -/
theorem Stream.next_looked {x : Stream}
    (h : x.pos.Looked highlight bs (max x.stop p) ms) :
    (x.next highlight p).pos.Looked highlight bs (max x.stop p) ms ∧
      ((x.next highlight p).pos = .search → nextMark highlight (max x.stop p) = none) := by
  by_cases hsearch : x.pos = .search
  · rw [hsearch] at h
    cases highlight with
    | none =>
      rw [Stream.next_none, hsearch]
      exact ⟨h, fun _ => rfl⟩
    | some e =>
      simp only [Stream.next, hsearch]
      cases hfind : e.indexOf (max x.stop p) with
      | none => exact ⟨h.eq_nil hfind, fun hpos => by cases hpos⟩
      | some found =>
        obtain ⟨q, l⟩ := found
        by_cases hl : l = 0
        · have hnone : nextMark (some e) (max x.stop p) = none := by
            simp only [nextMark, Option.bind_some, hfind, if_pos hl]
          simp only [if_pos hl, hsearch]
          exact ⟨h, fun _ => hnone⟩
        · have hnext : nextMark (some e) (max x.stop p) = some ⟨q, q + l⟩ := by
            simp only [nextMark, Option.bind_some, hfind, if_neg hl]
          simp only [if_neg hl]
          refine ⟨?_, fun hpos => by cases hpos⟩
          have hle := Expression.le_of_indexOf hfind
          have hfits := Expression.fits_of_indexOf hfind
          obtain ⟨ms', rfl, hrest⟩ := h.of_nextMark hnext
          exact ⟨ms', rfl, hle, hl, hfits, hrest⟩
  · rw [Stream.next_of_ne hsearch]
    exact ⟨h, fun hpos => absurd hpos hsearch⟩

variable {x : ℕ} {link : Link}

/-- Where the loop is after the searches. -/
structure Searched (exprs : Option (Kind → LinkExpression n)) (highlight : Option (Expression n))
    (st : State) (op : Option Link) (ls : List Link) (cur : Option Mark) (ms : List Mark) : Prop
    extends At exprs highlight Eq st op ls cur ms where
  noMark : st.hl.pos = .search → nextMark highlight (max st.hl.stop st.lastpos) = none

theorem AtLinks.search {s : List Char} {exprs : Option (Kind → LinkExpression s.length)}
    {highlight : Option (Expression s.length)} (h : AtLinks exprs Pending.Looks st op ls) :
    AtLinks exprs Eq (st.search s exprs highlight) op ls := by
  have hstop : ∀ k, ((st.search s exprs highlight).link k).stop = (st.link k).stop :=
    fun k => Stream.next_stop _ _ _
  cases h with
  | between hzero hpos hrest =>
    refine .between (fun k => (hstop k).trans (hzero k)) (fun k => ?_) hrest
    have hmax : max (st.link k).stop st.lastpos = st.lastpos := by
      rw [hzero]
      exact Nat.max_eq_right (Nat.zero_le _)
    have hlooks := hpos k
    rw [← hmax] at hlooks
    exact (Stream.next_pos hlooks).trans (by rw [hmax]; rfl)
  | @within link _ hlink hpos hother hinner hsearch hstart hend hlt hfits hleast hrest =>
    have hmax : max (st.link link.kind).stop st.lastpos = link.stop := by
      rw [hlink]
      exact Nat.max_eq_left hend
    rw [← hmax] at hpos
    refine .within ((hstop _).trans hlink) ((Stream.next_pos hpos).trans (by rw [hmax]))
      ((hstop _).trans hother) ?_ hsearch hstart hend hlt hfits hleast hrest
    have hsame := Stream.next_of_ne (x := st.link link.kind.other) (by rwa [hinner])
      (exprs.map fun e => (e link.kind.other).toExpression) st.lastpos
    exact (congrArg Stream.pos hsame).trans hinner

theorem At.search {s : List Char} {exprs : Option (Kind → LinkExpression s.length)}
    {highlight : Option (Expression s.length)}
    (h : At exprs highlight Pending.Looks st op ls cur ms) :
    Searched exprs highlight (st.search s exprs highlight) op ls cur ms := by
  have hhl : (st.search s exprs highlight).hl.stop = st.hl.stop := Stream.next_stop _ _ _
  obtain ⟨hlooked, hnone⟩ := Stream.next_looked h.marks.looked
  rw [← hhl] at hlooked hnone
  exact ⟨⟨h.links.search, ⟨hhl.trans h.marks.stop, h.marks.cur, hlooked⟩, h.free, h.le⟩, hnone⟩

/-! ## Where a highlight may begin or end -/

theorem Pending.AtLeast.mono {y : ℕ} (h : q.AtLeast y) (hle : x ≤ y) : q.AtLeast x := by
  cases q with
  | found r l => exact hle.trans h
  | search | none => trivial

theorem Kind.eq_or (k j : Kind) : j = k ∨ j = k.other := by
  cases k <;> cases j <;> first | exact .inl rfl | exact .inr rfl

theorem forall_kind {P : Kind → Prop} : P .url ∧ P .mail ↔ ∀ k, P k :=
  ⟨fun h k => by cases k with
    | url => exact h.1
    | mail => exact h.2, fun h => ⟨h _, h _⟩⟩

theorem pending_atLeast_self (k : Kind) (p : ℕ) : (pending exprs k p).AtLeast p := by
  cases hpos : pending exprs k p with
  | found q l => exact (pending_bounds hpos).1
  | search | none => trivial

theorem LinksFrom.head (h : LinksFrom exprs x ls) : nextLink exprs x = ls.head? := by
  cases h with
  | nil h => exact h
  | cons h _ => exact h

theorem free_iff_head : Free none ls x ↔ ∀ link, ls.head? = some link → x ≤ link.start := by
  cases ls with
  | nil => exact iff_of_true trivial fun link h => by cases h
  | cons link ls => exact ⟨fun h _ heq => Option.some.inj heq ▸ h, fun h => h link rfl⟩

/-- A highlight may end where no edge of a link was passed, and no match inside of one. -/
theorem AtLinks.closes_iff (h : AtLinks exprs Eq st op ls) :
    st.Closes x .url ∧ st.Closes x .mail ↔ Free op ls x := by
  rw [forall_kind]
  cases h with
  | between hzero hpos hrest =>
    rw [free_iff_head, ← hrest.head]
    constructor
    · intro hall link hlink
      obtain ⟨⟨l, hfound, -⟩, -⟩ := nextLink_spec hlink
      have hatLeast := (hall link.kind).1
      rw [hpos, hfound] at hatLeast
      exact hatLeast
    · intro hhead k
      refine ⟨?_, .inl (hzero k)⟩
      rw [hpos]
      exact pending_atLeast hhead k
  | @within link _ hstop hpos hother hinner hsearch hstart hend hlt =>
    constructor
    · intro hall
      refine ⟨(hall link.kind).2.elim (fun hzero => ?_) fun hle => hle.trans_eq hstop, ?_⟩
      · omega
      · rw [← hinner]
        exact (hall link.kind.other).1
    · rintro ⟨hle, hatLeast⟩ k
      rcases link.kind.eq_or k with rfl | rfl
      · refine ⟨?_, .inr (hle.trans_eq hstop.symm)⟩
        rw [hpos]
        exact (pending_atLeast_self _ _).mono hle
      · refine ⟨?_, .inl hother⟩
        rw [hinner]
        exact hatLeast

/-- To begin at a position is to leave it room. -/
theorem State.opens_iff : st.Opens x k ↔ st.Closes (x + 1) k := by
  rw [State.Opens, State.Closes]
  cases (st.link k).pos <;> exact Iff.rfl

theorem AtLinks.opens_iff (h : AtLinks exprs Eq st op ls) :
    st.Opens x .url ∧ st.Opens x .mail ↔ Free op ls (x + 1) := by
  rw [State.opens_iff, State.opens_iff, h.closes_iff]

theorem Free.mono {y : ℕ} (h : Free op ls y) (hle : x ≤ y) : Free op ls x := by
  cases op with
  | some link => exact ⟨hle.trans h.1, h.2.mono hle⟩
  | none =>
    cases ls with
    | nil => trivial
    | cons link ls => exact hle.trans h

/-- The loop goes on to a free position. -/
theorem AtLinks.move (h : AtLinks exprs Eq st op ls) (hle : st.lastpos ≤ x) (hfree : Free op ls x)
    (hl : Stream) : AtLinks exprs Pending.Looks { st with hl := hl, lastpos := x } op ls := by
  cases h with
  | between hzero hpos hrest =>
    have hhead := free_iff_head.mp hfree
    refine .between hzero (fun k => .inr ?_) (hrest.of_le hle hhead)
    rw [← hrest.head] at hhead
    exact (hpos k).trans (pending_of_le hle (pending_atLeast hhead k)).symm
  | within hstop hpos hother hinner hsearch hstart hend hlt hfits hleast hrest =>
    exact .within hstop (.inr hpos) hother hinner hsearch (hstart.trans hle) hfree.1 hlt hfits
      hleast hrest

/-! ## What blocks a highlight -/

theorem not_blocks_of_inner (h : link.inner.AtLeast m.stop) (hlt : m.start < m.stop) :
    ¬ Blocks n link m := by
  rw [Blocks]
  cases hinner : link.inner with
  | found q l =>
    rw [hinner] at h
    have hle : m.stop ≤ q := h
    rintro (h | h) <;> omega
  | search | none => exact not_false

theorem not_blocks_of_stop (h : link.stop ≤ m.start) (hlt : m.start < m.stop) :
    ¬ Blocks n link m := by
  rw [Blocks]
  cases hinner : link.inner with
  | found q l => rintro (h | h) <;> omega
  | search | none => exact not_false

/-- A link that a highlight goes beyond. -/
theorem not_blocks_of_above (h : link.inner.AtLeast (m.start + 1))
    (hle : link.stop ≤ m.stop) : ¬ Blocks n link m := by
  rw [Blocks]
  cases hinner : link.inner with
  | found q l =>
    rw [hinner] at h
    have hlt : m.start + 1 ≤ q := h
    rintro (h | h) <;> omega
  | search | none => exact not_false

theorem clear_cons_mark {ls : List Link} {ms : List Mark}
    (h : ∀ link ∈ ls, ¬ Blocks n link m) : Clear n ls (m :: ms) ↔ Clear n ls ms := by
  refine forall₂_congr fun link hlink => ?_
  rw [List.forall_mem_cons, and_iff_right (h link hlink)]

theorem clear_cons_link {ls : List Link} {ms : List Mark} (h : ∀ m ∈ ms, ¬ Blocks n link m) :
    Clear n (link :: ls) ms ↔ Clear n ls ms := by
  rw [Clear, List.forall_mem_cons, and_iff_right h]
  rfl

theorem Pending.Looked.bounds (h : q.Looked highlight bs x ms) :
    ∀ m ∈ ms, x ≤ m.start ∧ m.start < m.stop ∧ m.stop ≤ n := by
  cases q with
  | search => exact MarksFrom.bounds h
  | none =>
    obtain rfl : ms = [] := h
    exact nofun
  | found a l =>
    obtain ⟨ms', rfl, hle, hl, hfits, hrest⟩ := h
    refine List.forall_mem_cons.mpr ⟨⟨hle, ?_, hfits⟩, fun m hm => ?_⟩
    · exact Nat.lt_add_of_pos_right (Nat.pos_of_ne_zero hl)
    · obtain ⟨hstart, hbounds⟩ := hrest.bounds m hm
      exact ⟨by omega, hbounds⟩

/-- The highlights to come behind an edge that does not pass the pending one. -/
theorem Pending.Looked.edge {b : ℕ}
    (h : q.Looked highlight (b :: bs) x ms)
    (hnone : q = .search → nextMark highlight x = Option.none)
    (hfound : ∀ a l, q = .found a l → b ≤ a) :
    q.Looked highlight bs (max b x) ms := by
  cases q with
  | search =>
    cases h with
    | skip _ hrest => exact hrest
    | cons hsome _ =>
      rw [hnone rfl] at hsome
      cases hsome
  | none => exact h
  | found a l =>
    obtain ⟨ms', rfl, hle, hl, hfits, hrest⟩ := h
    have hb := hfound a l rfl
    exact ⟨ms', rfl, max_le hb hle, hl, hfits, hrest.passed (by omega)⟩

/-! ## The edges -/

theorem Kind.other_ne (k : Kind) : k.other ≠ k := by
  cases k <;> exact Kind.noConfusion

theorem State.setLink_self (st : State) (k : Kind) (y : Stream) : (st.setLink k y).link k = y :=
  if_pos rfl

theorem State.setLink_of_ne (st : State) {j : Kind} (h : j ≠ k) (y : Stream) :
    (st.setLink k y).link j = st.link j := if_neg h

theorem State.closeLink_self (st : State) (k : Kind) :
    (st.closeLink k).link k = { st.link k with stop := 0 } :=
  (State.setLink_of_ne _ k.other_ne.symm _).trans (State.setLink_self _ _ _)

theorem State.closeLink_other (st : State) (k : Kind) :
    (st.closeLink k).link k.other = { st.link k.other with pos := .search } :=
  State.setLink_self _ _ _

theorem State.openLink_self (st : State) (k : Kind) (q l : ℕ) :
    (st.openLink k q l).link k = ⟨.search, q + l⟩ := State.setLink_self _ _ _

theorem State.openLink_other (st : State) (k : Kind) (q l : ℕ) :
    (st.openLink k q l).link k.other = st.link k.other := State.setLink_of_ne _ k.other_ne _

/-- The other matches inside of the links are not passed either. -/
theorem AtLinks.inner_atLeast {R : Pending → Pending → Prop} (h : AtLinks exprs R st op ls)
    (hfree : Free op ls x) : ∀ link ∈ op.toList ++ ls, link.inner.AtLeast x := by
  cases h with
  | between hzero hpos hrest =>
    cases hrest with
    | nil hnext => exact nofun
    | cons hnext hrest =>
      have hlt := (nextLink_bounds hnext).2.1
      have hle : x ≤ _ := hfree
      refine List.forall_mem_cons.mpr ⟨(nextLink_spec hnext).2.2.mono hle, fun link hlink => ?_⟩
      obtain ⟨hstart, -, -, hleast⟩ := hrest.bounds link hlink
      exact hleast.mono (by omega)
  | within hstop hpos hother hinner hsearch hstart hend hlt hfits hleast hrest =>
    refine List.forall_mem_cons.mpr ⟨hfree.2, fun link hlink => ?_⟩
    obtain ⟨hstart, -, -, hleast⟩ := hrest.bounds link hlink
    exact hleast.mono (hfree.1.trans hstart)

/-- The end of a highlight. -/
theorem Searched.endMark (h : Searched exprs highlight st op ls (some m) ms)
    (hfree : Free op ls m.stop) :
    At exprs highlight Pending.Looks
        { st with hl := { st.hl with stop := 0 }, lastpos := m.stop } op ls none ms ∧
      (Clear n (op.toList ++ ls) ms ↔ Clear n (op.toList ++ ls) (m :: ms)) := by
  obtain ⟨hstart, hend, hlt, hfits⟩ := h.marks.cur m rfl
  have hstop : st.hl.stop = m.stop := h.marks.stop
  have hlooked := h.marks.looked
  rw [hstop, Nat.max_eq_left hend] at hlooked
  refine ⟨⟨h.links.move hend hfree _, ⟨rfl, fun m hm => (by cases hm), ?_⟩,
    fun m hm => (by cases hm), hfits⟩, ?_⟩
  · rwa [Nat.zero_max]
  · have hinner := h.links.inner_atLeast hfree
    exact (clear_cons_mark fun link hlink => not_blocks_of_inner (hinner link hlink) hlt).symm

/-- The start of a highlight. -/
theorem Searched.startMark {a l : ℕ} (h : Searched exprs highlight st op ls none ms)
    (hfound : st.hl.pos = .found a l) (hfree : Free op ls (a + 1)) :
    ∃ ms', ms = ⟨a, a + l⟩ :: ms' ∧ At exprs highlight Pending.Looks
      { st with hl := ⟨.search, a + l⟩, lastpos := a } op ls (some ⟨a, a + l⟩) ms' := by
  have hlooked := h.marks.looked
  rw [hfound] at hlooked
  obtain ⟨ms', rfl, hle, hl, hfits, hrest⟩ := hlooked
  have hpos : st.lastpos ≤ a := (le_max_right _ _).trans hle
  refine ⟨ms', rfl, h.links.move hpos (hfree.mono (Nat.le_succ a)) _, ⟨rfl, ?_, ?_⟩, ?_, ?_⟩
  · rintro m hm
    cases hm
    exact ⟨le_rfl, Nat.le_add_right a l, Nat.lt_add_of_pos_right (Nat.pos_of_ne_zero hl), hfits⟩
  · rw [Nat.max_eq_left (Nat.le_add_right a l)]
    exact hrest
  · rintro m hm
    cases hm
    exact hfree
  · exact (Nat.le_add_right a l).trans hfits

/-- The links behind one that ends. -/
theorem Searched.closeLinks (h : Searched exprs highlight st (some link) ls cur ms) :
    AtLinks exprs Pending.Looks (st.closeLink link.kind) none ls ∧
      (st.closeLink link.kind).lastpos = link.stop ∧ st.lastpos ≤ link.stop ∧ link.stop ≤ n ∧
      LinksFrom exprs link.stop ls := by
  cases h.links with
  | within hstop hpos hother hinner hsearch hstart hend hlt hfits hleast hrest =>
    refine ⟨.between (fun k => ?_) (fun k => ?_) ?_, hstop, hend, hfits, hrest⟩
    · rcases link.kind.eq_or k with rfl | rfl
      · rw [State.closeLink_self]
      · rw [State.closeLink_other]
        exact hother
    · rcases link.kind.eq_or k with rfl | rfl
      · rw [State.closeLink_self]
        refine .inr (hpos.trans ?_)
        rw [show (st.closeLink link.kind).lastpos = link.stop from hstop]
      · rw [State.closeLink_other]
        exact .inl rfl
    · rw [show (st.closeLink link.kind).lastpos = link.stop from hstop]
      exact hrest

/-- **The end of a link** that no highlight is behind. -/
theorem Searched.closeLink (h : Searched exprs highlight st (some link) ls cur ms)
    (hcur : ∀ m ∈ cur, link.stop ≤ m.stop)
    (hfound : cur = none → ∀ a l, st.hl.pos = .found a l → link.stop ≤ a) :
    At exprs highlight Pending.Looks (st.closeLink link.kind) none ls cur ms ∧
      (Clear n ls (cur.toList ++ ms) ↔ Clear n (link :: ls) (cur.toList ++ ms)) := by
  obtain ⟨hlinks, hlast, hend, hfits, hrest⟩ := h.closeLinks
  have hlooked : st.hl.pos.Looked highlight (link.stop :: edges ls) _ ms := h.marks.looked
  have hedge := hlooked.edge h.noMark fun a l hpos => by
    cases hcase : cur with
    | none => exact hfound hcase a l hpos
    | some m =>
      rw [hpos, h.marks.stop, hcase] at hlooked
      obtain ⟨-, -, hle, -⟩ := hlooked
      exact (hcur m hcase).trans ((le_max_left _ _).trans hle)
  have hmax : max link.stop (max st.hl.stop st.lastpos) = max st.hl.stop link.stop := by
    omega
  rw [hmax] at hedge
  refine ⟨⟨hlinks, ⟨h.marks.stop, fun m hm => ?_, ?_⟩, fun m hm => ?_, ?_⟩, ?_⟩
  · obtain ⟨hstart, -, hlt, hm'⟩ := h.marks.cur m hm
    rw [hlast]
    exact ⟨hstart.trans hend, hcur m hm, hlt, hm'⟩
  · rw [hlast]
    exact hedge
  · have hstart := (h.free m hm).1
    refine free_iff_head.mpr fun next hnext => hstart.trans ?_
    exact (hrest.bounds next (List.mem_of_mem_head? hnext)).1
  · rw [hlast]
    exact hfits
  · refine (clear_cons_link fun m hm => ?_).symm
    rcases List.mem_append.mp hm with hm | hm
    · have hm := Option.mem_toList.mp hm
      exact not_blocks_of_above (h.free m hm).2 (hcur m hm)
    · obtain ⟨hstart, hlt, -⟩ := hedge.bounds m hm
      exact not_blocks_of_stop ((le_max_right _ _).trans hstart) hlt

/-- **The start of a link** that no highlight is before. -/
theorem Searched.openLink (h : Searched exprs highlight st none (link :: ls) cur ms)
    (hcur : ∀ m ∈ cur, link.start ≤ m.stop)
    (hfound : cur = none → ∀ a l, st.hl.pos = .found a l → link.start ≤ a) :
    At exprs highlight Pending.Looks (st.openLink link.kind link.start (link.stop - link.start))
      (some link) ls cur ms ∧ st.lastpos ≤ link.start := by
  cases h.links with
  | between hzero hpos hrest =>
    cases hrest with
    | cons hnext hrest =>
      obtain ⟨⟨l, hkind, hstop⟩, hinner, hleast⟩ := nextLink_spec hnext
      obtain ⟨hle, hlt, hfits⟩ := nextLink_bounds hnext
      have hlooked : st.hl.pos.Looked highlight (link.start :: edgesFrom (some link) ls) _ ms :=
        h.marks.looked
      have hedge := hlooked.edge h.noMark fun a l hpos => by
        cases hcase : cur with
        | none => exact hfound hcase a l hpos
        | some m =>
          rw [hpos, h.marks.stop, hcase] at hlooked
          obtain ⟨-, -, hle, -⟩ := hlooked
          exact (hcur m hcase).trans ((le_max_left _ _).trans hle)
      have hmax : max link.start (max st.hl.stop st.lastpos) = max st.hl.stop link.start := by
        omega
      rw [hmax] at hedge
      refine ⟨⟨.within ?_ ?_ ?_ ?_ ?_ le_rfl hlt.le hlt hfits hleast hrest,
        ⟨h.marks.stop, fun m hm => ?_, hedge⟩, fun m hm => ?_, hlt.le.trans hfits⟩, hle⟩
      · rw [State.openLink_self]
        exact Nat.add_sub_cancel' hlt.le
      · rw [State.openLink_self]
        exact .inl rfl
      · rw [State.openLink_other]
        exact hzero _
      · rw [State.openLink_other, hpos]
        exact hinner.symm
      · intro hsearch
        rw [hinner, pending_eq_search_iff] at hsearch
        rw [hsearch] at hkind
        cases hkind
      · obtain ⟨hstart, -, hm⟩ := h.marks.cur m hm
        exact ⟨hstart.trans hle, hcur m ‹_›, hm⟩
      · have hstart : m.start + 1 ≤ link.start := h.free m hm
        exact ⟨hstart.trans hlt.le, hleast.mono hstart⟩

end Licq.MLView
