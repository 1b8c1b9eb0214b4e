import Licq.QtGui.MLViewRun

/-!
# QtGui/MLViewText — the text with its tags

One round of the loop goes on to the next edge of a link or of a highlight; or it goes behind a
highlight that a link has blocked, and then back (`outcome`).  A run without that gives the text
with the tags of all links (`run_clear`), and one with it gives more text than there is
(`run_blocked`).  The **main result** is `marks_iff`.
-/

open Text (Expression)

namespace Licq.MLView

open List Option

variable {s : List Char} {exprs : Option (Kind → LinkExpression s.length)}
  {highlight : Option (Expression s.length)} {st : State} {op : Option Link} {ls : List Link}
  {cur : Option Mark} {ms : List Mark} {link : Link}

/-! ## One round -/

/-- The elements that are open, the last one first. -/
def stack (op : Option Link) (cur : Option Mark) : List Element :=
  (cur.map fun _ => Element.span).toList ++ (op.map fun _ => Element.a).toList

/-- The edges to come, twice. -/
def size (op : Option Link) (ls : List Link) (cur : Option Mark) (ms : List Mark) : ℕ :=
  2 * ls.length + op.toList.length + 2 * ms.length + cur.toList.length

/-- The target of a link. -/
def Link.target (s : List Char) (exprs : Option (Kind → LinkExpression s.length)) (link : Link) :
    List Char :=
  href s exprs link.kind link.start (link.stop - link.start)

/-- What is left after a round. -/
inductive Outcome (exprs : Option (Kind → LinkExpression s.length))
    (highlight : Option (Expression s.length)) (op : Option Link) (ls : List Link)
    (cur : Option Mark) (ms : List Mark) (st' : State) (tags : List Item) : Prop
  | goes {op' : Option Link} {ls' : List Link} {cur' : Option Mark} {ms' : List Mark}
      (hat : At exprs highlight Pending.Looks st' op' ls' cur' ms')
      (hsize : size op' ls' cur' ms' < size op ls cur ms)
      (hclear : Clear s.length (op'.toList ++ ls') (cur'.toList ++ ms') ↔
        Clear s.length (op.toList ++ ls) (cur.toList ++ ms))
      (hnested : ∀ items, Nested (stack op' cur') items → Nested (stack op cur) (tags ++ items))
      (hrefs : tags.filterMap Item.href? ++ ls'.map (Link.target s exprs) =
        ls.map (Link.target s exprs))
  | back {ls' : List Link} (hlinks : AtLinks exprs Pending.Looks st' none ls')
      (hle : st'.lastpos ≤ s.length)
      (hback : (0 < st'.hl.stop ∧ st'.hl.stop < st'.lastpos) ∨
        (st'.hl.stop = 0 ∧ ∃ a l, st'.hl.pos = .found a l ∧ a < st'.lastpos ∧
          st'.lastpos < s.length))
      (hclear : ¬ Clear s.length (op.toList ++ ls) (cur.toList ++ ms))
  | ends (hopen : ¬ st'.Open) (hlast : st'.lastpos = s.length)
      (hclear : Clear s.length (op.toList ++ ls) (cur.toList ++ ms))
      (hnested : Nested (stack op cur) tags)
      (hrefs : tags.filterMap Item.href? = ls.map (Link.target s exprs))

variable {n : ℕ} {e : Option (Kind → LinkExpression n)} {h : Option (Expression n)}

theorem AtMarks.stop_pos {bs : List ℕ} (hat : AtMarks h st bs cur ms) :
    0 < st.hl.stop ↔ cur.isSome := by
  rw [hat.stop]
  cases hcur : cur with
  | none => exact iff_of_false (Nat.lt_irrefl 0) (by decide)
  | some m =>
    have hlt := (hat.cur m hcur).2.2.1
    exact iff_of_true (Nat.zero_lt_of_lt hlt) rfl

/-- A highlight is closed and opened again around the tag of a link. -/
theorem AtMarks.breakhl {bs : List ℕ} (hat : AtMarks h st bs cur ms) (tag : Item) :
    st.breakhl tag =
      if cur.isSome then [.highlightEnd, tag, .highlight] else [tag] := by
  rw [State.breakhl]
  exact if_congr hat.stop_pos rfl rfl

/-- The link that begins next is the first one to come. -/
theorem AtLinks.starting_eq (hat : AtLinks e Eq st none ls) :
    st.starting = ls.head?.map fun link => (link.kind, link.start, link.stop - link.start) := by
  cases hat with
  | between hzero hpos hrest =>
    rw [← hrest.head, State.starting, hpos, hpos, nextLink]
    cases hurl : pending e .url st.lastpos with
    | found q l =>
      cases hmail : pending e .mail st.lastpos with
      | found r m =>
        simp only
        split_ifs
        · simp only [map_some, Nat.add_sub_cancel_left]
        · simp only [map_some, Nat.add_sub_cancel_left]
      | search =>
        rw [pending_eq_search_iff] at hmail
        rw [hmail] at hurl
        cases hurl
      | none => simp only [map_some, Nat.add_sub_cancel_left]
    | search | none =>
      cases hmail : pending e .mail st.lastpos with
      | found r m => simp only [map_some, Nat.add_sub_cancel_left]
      | search | none => rfl

theorem Searched.not_closes (hat : Searched e h st op ls cur ms)
    (hcloses : ∀ m ∈ cur, ¬ Free op ls m.stop) :
    ¬ (0 < st.hl.stop ∧ st.Closes st.hl.stop .url ∧ st.Closes st.hl.stop .mail) := by
  rintro ⟨hpos, hall⟩
  obtain ⟨m, rfl⟩ := isSome_iff_exists.mp (hat.marks.stop_pos.mp hpos)
  rw [show st.hl.stop = m.stop from hat.marks.stop, hat.links.closes_iff] at hall
  exact hcloses m rfl hall

/-- Where no highlight begins or ends, a round is about the links. -/
theorem advance_within (hat : Searched exprs highlight st (some link) ls cur ms)
    (hcloses : ∀ m ∈ cur, ¬ Free (some link) ls m.stop) (hopening : st.opening = none) :
    st.advance s exprs = (st.closeLink link.kind, st.breakhl .linkEnd) := by
  rw [State.advance, if_neg (hat.not_closes hcloses), hopening]
  cases hat.links with
  | within hstop hpos hother hinner hsearch hstart hend hlt =>
    have hpos : 0 < (st.link link.kind).stop := hstop ▸ Nat.zero_lt_of_lt hlt
    cases hkind : link.kind with
    | url =>
      rw [hkind] at hpos
      exact if_pos hpos
    | mail =>
      rw [hkind] at hpos hother
      have hzero : ¬ 0 < (st.link .url).stop := Nat.not_lt.mpr hother.le
      exact (if_neg hzero).trans (if_pos hpos)

theorem advance_between (hat : Searched exprs highlight st none ls cur ms)
    (hcloses : ∀ m ∈ cur, ¬ Free none ls m.stop) (hopening : st.opening = none) :
    st.advance s exprs =
      match ls with
      | link :: _ => (st.openLink link.kind link.start (link.stop - link.start),
          st.breakhl (.link (link.target s exprs)))
      | [] => ({ st with lastpos := s.length }, []) := by
  have hzero : ∀ k, ¬ 0 < (st.link k).stop := by
    cases hat.links with
    | between hzero _ _ => exact fun k => Nat.not_lt.mpr (hzero k).le
  rw [State.advance, if_neg (hat.not_closes hcloses), hopening]
  simp only [if_neg (hzero .url), if_neg (hzero .mail), hat.links.starting_eq]
  cases ls with
  | nil => rfl
  | cons link ls => rfl

variable {tags items : List Item} {pos newpos fuel : ℕ}

theorem nested_linkEnd
    (htags : tags = if cur.isSome then [.highlightEnd, .linkEnd, .highlight] else [.linkEnd])
    (hnested : Nested (stack none cur) items) :
    Nested (stack (some link) cur) (tags ++ items) := by
  subst htags
  cases cur with
  | none => exact ⟨rfl, hnested⟩
  | some m => exact ⟨rfl, rfl, hnested⟩

theorem nested_link {href : List Char}
    (htags : tags = if cur.isSome then [.highlightEnd, .link href, .highlight] else [.link href])
    (hnested : Nested (stack (some link) cur) items) :
    Nested (stack none cur) (tags ++ items) := by
  subst htags
  cases cur with
  | none => exact hnested
  | some m => exact ⟨rfl, hnested⟩

theorem filterMap_breakhl (st : State) (tag : Item) :
    (st.breakhl tag).filterMap Item.href? = [tag].filterMap Item.href? := by
  rw [State.breakhl]
  split_ifs
  · cases tag <;> rfl
  · rfl

/-- What a link blocks that ends while a highlight is behind its end. -/
theorem blocks_of_not_free {x : ℕ} (hx : x ≤ link.stop) (hfree : ¬ Free (some link) ls x) :
    ∃ q l, link.inner = .found q l ∧ q < x := by
  have hinner : ¬ link.inner.AtLeast x := fun h => hfree ⟨hx, h⟩
  cases hpos : link.inner with
  | found q l =>
    rw [hpos] at hinner
    exact ⟨q, l, rfl, Nat.lt_of_not_le hinner⟩
  | search | none =>
    rw [hpos] at hinner
    exact absurd trivial hinner

/-- The end of a link, where no highlight could begin or end before. -/
theorem outcome_within (hat : Searched exprs highlight st (some link) ls cur ms)
    (hcur : ∀ m ∈ cur, ¬ Free (some link) ls m.stop)
    (hfound : cur = none → ∀ a l, st.hl.pos = .found a l → ¬ Free (some link) ls (a + 1)) :
    Outcome exprs highlight (some link) ls cur ms (st.closeLink link.kind)
      (st.breakhl .linkEnd) := by
  obtain ⟨hlinks, hlast, hend, hfits, hrest⟩ := hat.closeLinks
  have hrefs : (st.breakhl .linkEnd).filterMap Item.href? = [] := filterMap_breakhl st .linkEnd
  by_cases hgood : (∀ m ∈ cur, link.stop ≤ m.stop) ∧
      (cur = none → ∀ a l, st.hl.pos = .found a l → link.stop ≤ a)
  · obtain ⟨hclosed, hclear⟩ := hat.closeLink hgood.1 hgood.2
    refine .goes hclosed ?_ hclear (fun items => nested_linkEnd (hat.marks.breakhl _)) ?_
    · simp only [size, toList_none, toList_some, length_nil,
        length_singleton]
      omega
    · rw [hrefs, nil_append]
  · cases hcase : cur with
    | some m =>
      -- the link ends behind the highlight that is open
      subst hcase
      have hlt : m.stop < link.stop := by
        by_contra hle
        refine hgood ⟨fun m' hm' => ?_, nofun⟩
        cases hm'
        exact Nat.le_of_not_lt hle
      obtain ⟨q, l, hinner, hq⟩ := blocks_of_not_free hlt.le (hcur m rfl)
      have hstop : st.hl.stop = m.stop := hat.marks.stop
      have hmark := hat.marks.cur m rfl
      refine .back hlinks (hlast.trans_le hfits) (.inl ⟨?_, ?_⟩) fun hclear => ?_
      · exact hstop ▸ Nat.zero_lt_of_lt hmark.2.2.1
      · exact hlast ▸ hstop ▸ hlt
      · have hstart := (hat.free m rfl).2
        rw [hinner] at hstart
        refine hclear link mem_cons_self m mem_cons_self ?_
        rw [Blocks, hinner]
        exact .inr ⟨hstart, hq, hlt⟩
    | none =>
      subst hcase
      have hpast : ∃ a l, st.hl.pos = .found a l ∧ a < link.stop := by
        by_contra hno
        refine hgood ⟨fun m hm => (by cases hm), fun _ a l hpos => ?_⟩
        exact Nat.le_of_not_lt fun hlt => hno ⟨a, l, hpos, hlt⟩
      obtain ⟨a, l, hpos, hlt⟩ := hpast
      obtain ⟨q, l', hinner, hq⟩ := blocks_of_not_free hlt (hfound rfl a l hpos)
      have hlooked := hat.marks.looked
      rw [hpos] at hlooked
      obtain ⟨ms', rfl, -, hl, -, hmarks⟩ := hlooked
      rcases hfits.eq_or_lt with hn | hn
      · -- the link ends the text
        have hls : ls = [] := by
          cases hrest with
          | nil _ => rfl
          | cons hnext _ =>
            have := nextLink_bounds hnext
            omega
        subst hls
        refine .ends ?_ (hlast.trans hn) ?_ ?_ hrefs
        · have hzero : ∀ k, ((st.closeLink link.kind).link k).stop = 0 := by
            cases hlinks with
            | between hzero _ _ => exact hzero
          have hhl : st.hl.stop = 0 := hat.marks.stop
          rintro (hopen | hopen | hopen)
          · exact hopen.ne' (hzero .url)
          · exact hopen.ne' (hzero .mail)
          · exact hopen.ne' hhl
        · refine forall_mem_singleton.mpr fun m hm => ?_
          have hstart : a ≤ m.start := by
            rcases mem_cons.mp hm with rfl | hm
            · exact le_rfl
            · have := (hmarks.bounds m hm).1
              omega
          rw [Blocks, hinner]
          rintro (h | h) <;> omega
        · have hnested : Nested (stack (some link) none) (st.breakhl .linkEnd ++ []) :=
            nested_linkEnd (hat.marks.breakhl .linkEnd) (show Nested (stack none none) [] from rfl)
          rwa [append_nil] at hnested
      · refine .back hlinks (hlast.trans_le hfits) (.inr ⟨hat.marks.stop, a, l, hpos, ?_, ?_⟩)
          fun hclear => ?_
        · exact hlast ▸ hlt
        · exact hlast ▸ hn
        · refine hclear link mem_cons_self _ mem_cons_self ?_
          rw [Blocks, hinner]
          exact .inl ⟨Nat.le_of_lt_succ hq, hlt, hn⟩

/-- The start of a link or the end of the text, where no highlight could begin or end before. -/
theorem outcome_between (hat : Searched exprs highlight st none ls cur ms)
    (hcur : ∀ m ∈ cur, ¬ Free none ls m.stop)
    (hfound : cur = none → ∀ a l, st.hl.pos = .found a l → ¬ Free none ls (a + 1))
    (hopening : st.opening = none) :
    st.lastpos ≤ (st.advance s exprs).1.lastpos ∧
      Outcome exprs highlight none ls cur ms (st.advance s exprs).1 (st.advance s exprs).2 := by
  rw [advance_between hat hcur hopening]
  cases ls with
  | nil =>
    have hnone : cur = none := by
      cases hcase : cur with
      | none => rfl
      | some m => exact absurd trivial (hcur m hcase)
    subst hnone
    have hzero : ∀ k, (st.link k).stop = 0 := by
      cases hat.links with
      | between hzero _ _ => exact hzero
    have hhl : st.hl.stop = 0 := hat.marks.stop
    refine ⟨hat.le, .ends ?_ rfl (nofun) rfl rfl⟩
    rintro (hopen | hopen | hopen)
    · exact hopen.ne' (hzero .url)
    · exact hopen.ne' (hzero .mail)
    · exact hopen.ne' hhl
  | cons link ls =>
    have hcur' : ∀ m ∈ cur, link.start ≤ m.stop :=
      fun m hm => (Nat.lt_of_not_le (hcur m hm)).le
    have hfound' : cur = none → ∀ a l, st.hl.pos = .found a l → link.start ≤ a :=
      fun hnone a l hpos => Nat.le_of_lt_succ (Nat.lt_of_not_le (hfound hnone a l hpos))
    obtain ⟨hopened, hle⟩ := hat.openLink hcur' hfound'
    refine ⟨hle, .goes hopened ?_ Iff.rfl (fun items => nested_link (hat.marks.breakhl _)) ?_⟩
    · simp only [size, toList_none, toList_some, length_nil, length_cons]
      omega
    · rw [filterMap_breakhl]
      rfl

/-- **One round.** -/
theorem outcome (hat : Searched exprs highlight st op ls cur ms) :
    st.lastpos ≤ (st.advance s exprs).1.lastpos ∧
      Outcome exprs highlight op ls cur ms (st.advance s exprs).1 (st.advance s exprs).2 := by
  by_cases hend : ∃ m ∈ cur, Free op ls m.stop
  · -- a highlight ends
    obtain ⟨m, rfl, hfree⟩ := hend
    obtain ⟨hended, hclear⟩ := hat.endMark hfree
    have hstop : st.hl.stop = m.stop := hat.marks.stop
    have hpos := hat.marks.stop_pos.mpr rfl
    have hall := hat.links.closes_iff.mpr hfree
    rw [← hstop] at hall
    rw [State.advance, if_pos ⟨hpos, hall⟩, hstop]
    refine ⟨(hat.marks.cur m rfl).2.1, .goes hended ?_ hclear (fun items h => ⟨rfl, h⟩) rfl⟩
    simp only [size, toList_none, toList_some, length_nil,
      length_singleton]
    omega
  · have hcur : ∀ m ∈ cur, ¬ Free op ls m.stop := fun m hm hfree => hend ⟨m, hm, hfree⟩
    by_cases hbegin : cur = none ∧ ∃ a l, st.hl.pos = .found a l ∧ Free op ls (a + 1)
    · -- a highlight begins
      obtain ⟨rfl, a, l, hpos, hfree⟩ := hbegin
      obtain ⟨ms', rfl, hbegun⟩ := hat.startMark hpos hfree
      have hzero : st.hl.stop = 0 := hat.marks.stop
      have hopening : st.opening = some (a, l) := by
        simp only [State.opening, hpos]
        exact if_pos ⟨hzero, hat.links.opens_iff.mpr hfree⟩
      have hlooked := hat.marks.looked
      rw [hpos] at hlooked
      obtain ⟨-, -, hle, -⟩ := hlooked
      rw [State.advance, if_neg (hat.not_closes hcur), hopening]
      refine ⟨(le_max_right _ _).trans hle, .goes hbegun ?_ Iff.rfl (fun items h => ?_) rfl⟩
      · simp only [size, toList_none, toList_some, length_nil, length_cons]
        omega
      · exact h
    · have hfound : cur = none → ∀ a l, st.hl.pos = .found a l → ¬ Free op ls (a + 1) :=
        fun hnone a l hpos hfree => hbegin ⟨hnone, a, l, hpos, hfree⟩
      have hopening : st.opening = none := by
        cases hpos : st.hl.pos with
        | search | none => simp only [State.opening, hpos]
        | found a l =>
          simp only [State.opening, hpos]
          refine if_neg ?_
          rintro ⟨hzero, hall⟩
          cases hcase : cur with
          | none => exact hfound hcase a l hpos (hat.links.opens_iff.mp hall)
          | some m =>
            have hstop := hat.marks.stop_pos.mpr (hcase ▸ rfl)
            omega
      cases op with
      | some link =>
        rw [advance_within hat hcur hopening]
        obtain ⟨-, hlast, hle, -⟩ := hat.closeLinks
        exact ⟨hlast ▸ hle, outcome_within hat hcur hfound⟩
      | none => exact outcome_between hat hcur hfound hopening

/-! ## Runs -/

/-- Tags have no text. -/
theorem rawtext_advance (st : State) : (st.advance s exprs).2.flatMap Item.rawtext = [] := by
  have hbreak : ∀ (st : State) (tag : Item), tag.rawtext = [] →
      (st.breakhl tag).flatMap Item.rawtext = [] := by
    intro st tag htag
    rw [State.breakhl]
    split_ifs
    · rw [flatMap_cons, flatMap_cons, htag]
      rfl
    · rw [flatMap_singleton, htag]
  rw [State.advance]
  split
  · rfl
  split
  · rfl
  split
  · exact hbreak _ _ rfl
  split
  · exact hbreak _ _ rfl
  split
  · exact hbreak _ _ rfl
  · rfl

theorem rawtext_of_advance {st' : State}
    (hnext : (st.search s exprs highlight).advance s exprs = (st', tags)) :
    tags.flatMap Item.rawtext = [] := by
  have htags : ((st.search s exprs highlight).advance s exprs).2.flatMap Item.rawtext = [] :=
    rawtext_advance _
  rwa [hnext] at htags

theorem length_mid_of_le (hle : pos ≤ newpos) (hfits : newpos ≤ s.length) :
    (mid s pos newpos).length = newpos - pos := by
  rw [mid, if_neg hle.not_gt, length_take, length_drop]
  omega

theorem length_mid_of_lt (hlt : newpos < pos) : (mid s pos newpos).length = s.length - pos := by
  rw [mid, if_pos hlt, length_drop]

theorem mid_append (hle : pos ≤ newpos) : mid s pos newpos ++ s.drop newpos = s.drop pos := by
  rw [mid, if_neg hle.not_gt]
  have hdrop : s.drop newpos = (s.drop pos).drop (newpos - pos) := by
    rw [drop_drop, Nat.add_sub_cancel' hle]
  rw [hdrop, take_append_drop]

/-- One round of the loop, then the rest. -/
theorem loop_succ (fuel : ℕ) (st : State) :
    loop s exprs highlight (fuel + 1) st =
      let next := (st.search s exprs highlight).advance s exprs
      let items := .text (mid s st.lastpos next.1.lastpos) :: next.2
      if next.1.Open ∨ next.1.lastpos < s.length then
        (loop s exprs highlight fuel next.1).map (items ++ ·)
      else some items := rfl

/-- A state between two links and out of a highlight that is at the end of the text has nothing to
come. -/
theorem At.ended (hat : At exprs highlight Pending.Looks st op ls cur ms)
    (hend : ¬ (st.Open ∨ st.lastpos < s.length)) :
    op = none ∧ ls = [] ∧ cur = none ∧ st.lastpos = s.length := by
  obtain ⟨hopen, hlast⟩ := not_or.mp hend
  have hlast : st.lastpos = s.length := le_antisymm hat.le (Nat.le_of_not_lt hlast)
  have hcur : cur = none := by
    have hstop : ¬ 0 < st.hl.stop := fun h => hopen (.inr (.inr h))
    rw [hat.marks.stop_pos] at hstop
    exact not_isSome_iff_eq_none.mp hstop
  cases hat.links with
  | between _ _ hrest =>
    refine ⟨rfl, ?_, hcur, hlast⟩
    cases hrest with
    | nil _ => rfl
    | cons hnext _ =>
      have := nextLink_bounds hnext
      omega
  | @within link _ hstop _ _ _ _ _ _ hlt =>
    have hpos : 0 < (st.link link.kind).stop := hstop ▸ Nat.zero_lt_of_lt hlt
    refine absurd ?_ hopen
    cases hkind : link.kind with
    | url => exact .inl (hkind ▸ hpos)
    | mail => exact .inr (.inl (hkind ▸ hpos))

/-- **A run without a blocked highlight** ends, with the text from its position on and the tags of
the links to come. -/
theorem run_clear (k : ℕ) (hat : At exprs highlight Pending.Looks st op ls cur ms)
    (hk : size op ls cur ms < k)
    (hclear : Clear s.length (op.toList ++ ls) (cur.toList ++ ms)) :
    ∃ fuel items, loop s exprs highlight fuel st = some items ∧
      items.flatMap Item.rawtext = s.drop st.lastpos ∧ Nested (stack op cur) items ∧
      items.filterMap Item.href? = ls.map (Link.target s exprs) := by
  induction k generalizing st op ls cur ms with
  | zero => exact absurd hk (Nat.not_lt_zero _)
  | succ k ih =>
    obtain ⟨hle, hout⟩ := outcome hat.search
    generalize hnext : (st.search s exprs highlight).advance s exprs = next at hle hout
    obtain ⟨st', tags⟩ := next
    have hraw := rawtext_of_advance hnext
    have htext : mid s st.lastpos st'.lastpos ++ s.drop st'.lastpos = s.drop st.lastpos :=
      mid_append hle
    have hstep : ∀ fuel, loop s exprs highlight (fuel + 1) st = _ := fun fuel => loop_succ fuel st
    simp only [hnext] at hstep
    cases hout with
    | @goes op' ls' cur' ms' hat' hsize hiff hnested hrefs =>
      by_cases hgo : st'.Open ∨ st'.lastpos < s.length
      · obtain ⟨fuel, items, hloop, hrest, hnest, hhref⟩ :=
          ih hat' (by omega) (hiff.mpr hclear)
        refine ⟨fuel + 1, .text (mid s st.lastpos st'.lastpos) :: tags ++ items, ?_, ?_, ?_, ?_⟩
        · rw [hstep, if_pos hgo, hloop]
          rfl
        · rw [cons_append, flatMap_cons, flatMap_append, hraw, hrest]
          exact htext
        · exact hnested items hnest
        · rw [cons_append, filterMap_cons, filterMap_append, hhref]
          exact hrefs
      · obtain ⟨rfl, rfl, rfl, hlast⟩ := hat'.ended hgo
        refine ⟨1, .text (mid s st.lastpos st'.lastpos) :: tags, ?_, ?_, ?_, ?_⟩
        · rw [hstep, if_neg hgo]
        · rw [hlast, drop_length, append_nil] at htext
          rw [flatMap_cons, hraw, append_nil, hlast]
          exact htext
        · have hnest := hnested [] rfl
          rw [append_nil] at hnest
          exact hnest
        · rw [map_nil, append_nil] at hrefs
          rw [filterMap_cons]
          exact hrefs
    | back _ _ _ hnot => exact absurd hclear hnot
    | ends hopen hlast _ hnest hhref =>
      have hgo : ¬ (st'.Open ∨ st'.lastpos < s.length) :=
        not_or.mpr ⟨hopen, hlast.not_lt⟩
      refine ⟨1, .text (mid s st.lastpos st'.lastpos) :: tags, ?_, ?_, hnest, ?_⟩
      · rw [hstep, if_neg hgo]
      · rw [hlast, drop_length, append_nil] at htext
        rw [flatMap_cons, hraw, append_nil, hlast]
        exact htext
      · rw [filterMap_cons]
        exact hhref

theorem length_rawtext_cons (rawtext : List Char) (items : List Item)
    (htags : tags.flatMap Item.rawtext = []) :
    ((.text rawtext :: tags ++ items).flatMap Item.rawtext).length =
      rawtext.length + (items.flatMap Item.rawtext).length := by
  rw [cons_append, flatMap_cons, flatMap_append, htags, length_append]
  rfl

/-- **No run gives less than the text from its position on.** -/
theorem length_le_run {st : State}
    (hloop : loop s exprs highlight fuel st = some items) :
    s.length ≤ st.lastpos + (items.flatMap Item.rawtext).length := by
  induction fuel generalizing st items with
  | zero => cases hloop
  | succ fuel ih =>
    rw [loop_succ] at hloop
    generalize hnext : (st.search s exprs highlight).advance s exprs = next at hloop
    obtain ⟨st', tags⟩ := next
    have hraw := rawtext_of_advance hnext
    have hmid : s.length ≤ st.lastpos + (mid s st.lastpos st'.lastpos).length ∨
        st'.lastpos ≤ st.lastpos + (mid s st.lastpos st'.lastpos).length := by
      rcases Nat.lt_or_ge st'.lastpos st.lastpos with hlt | hge
      · rw [length_mid_of_lt hlt]
        omega
      · rw [mid, if_neg hge.not_gt, length_take, length_drop]
        omega
    simp only at hloop
    split_ifs at hloop with hgo
    · obtain ⟨rest, hrest, rfl⟩ := map_eq_some_iff.mp hloop
      have hle := ih hrest
      rw [length_rawtext_cons _ _ hraw]
      omega
    · cases hloop
      have hlen := length_rawtext_cons (mid s st.lastpos st'.lastpos) [] hraw
      rw [append_nil, flatMap_nil, length_nil] at hlen
      rw [hlen]
      have hlast := (not_or.mp hgo).2
      omega

/-- Where a pending or an open highlight is behind the loop, a round goes back to it. -/
theorem advance_back (hlinks : AtLinks exprs Pending.Looks st none ls)
    (hback : (0 < st.hl.stop ∧ st.hl.stop < st.lastpos) ∨ (st.hl.stop = 0 ∧
      ∃ a l, st.hl.pos = .found a l ∧ a < st.lastpos ∧ st.lastpos < s.length)) :
    ((st.search s exprs highlight).advance s exprs).1.lastpos < st.lastpos := by
  have hsearched : AtLinks exprs Eq (st.search s exprs highlight) none ls := hlinks.search
  have hhl : (st.search s exprs highlight).hl.stop = st.hl.stop := Stream.next_stop _ _ _
  have hfree : Free none ls st.lastpos := by
    cases hlinks with
    | between _ _ hrest => exact free_iff_head.mpr fun link hlink => (hrest.bounds link
        (mem_of_mem_head? hlink)).1
  rcases hback with ⟨hpos, hlt⟩ | ⟨hzero, a, l, hfound, hlt, -⟩
  · have hall := hsearched.closes_iff.mpr (hfree.mono hlt.le)
    rw [← hhl] at hpos hlt hall
    rw [State.advance, if_pos ⟨hpos, hall⟩]
    exact hlt
  · have hpos : (st.search s exprs highlight).hl.pos = .found a l := by
      have hne : st.hl.pos ≠ .search := by
        rw [hfound]
        exact Pending.noConfusion
      exact (congrArg Stream.pos (Stream.next_of_ne hne highlight st.lastpos)).trans hfound
    have hopening : (st.search s exprs highlight).opening = some (a, l) := by
      simp only [State.opening, hpos]
      exact if_pos ⟨hhl.trans hzero, hsearched.opens_iff.mpr (hfree.mono hlt)⟩
    have hnot : ¬ 0 < (st.search s exprs highlight).hl.stop := by
      rw [hhl, hzero]
      exact Nat.lt_irrefl 0
    rw [State.advance, if_neg fun h => hnot h.1, hopening]
    exact hlt

/-- Behind a highlight the loop goes back, and gives text that it gave before. -/
theorem lt_length_of_back
    (hlinks : AtLinks exprs Pending.Looks st none ls) (hle : st.lastpos ≤ s.length)
    (hback : (0 < st.hl.stop ∧ st.hl.stop < st.lastpos) ∨ (st.hl.stop = 0 ∧
      ∃ a l, st.hl.pos = .found a l ∧ a < st.lastpos ∧ st.lastpos < s.length))
    (hloop : loop s exprs highlight fuel st = some items) :
    s.length < st.lastpos + (items.flatMap Item.rawtext).length := by
  cases fuel with
  | zero => cases hloop
  | succ fuel =>
    have hlt : ((st.search s exprs highlight).advance s exprs).1.lastpos < st.lastpos :=
      advance_back hlinks hback
    rw [loop_succ] at hloop
    generalize hnext : (st.search s exprs highlight).advance s exprs = next at hloop hlt
    obtain ⟨st', tags⟩ := next
    have hgo : st'.Open ∨ st'.lastpos < s.length := .inr (hlt.trans_le hle)
    simp only [if_pos hgo] at hloop
    obtain ⟨rest, hrest, rfl⟩ := map_eq_some_iff.mp hloop
    have hrun := length_le_run hrest
    rw [length_rawtext_cons _ _ (rawtext_of_advance hnext), length_mid_of_lt hlt]
    simp only at hlt
    omega

/-- **A run with a blocked highlight** gives more than the text. -/
theorem run_blocked
    (hat : At exprs highlight Pending.Looks st op ls cur ms)
    (hclear : ¬ Clear s.length (op.toList ++ ls) (cur.toList ++ ms))
    (hloop : loop s exprs highlight fuel st = some items) :
    s.length < st.lastpos + (items.flatMap Item.rawtext).length := by
  induction fuel generalizing st op ls cur ms items with
  | zero => cases hloop
  | succ fuel ih =>
    obtain ⟨hle, hout⟩ := outcome hat.search
    rw [loop_succ] at hloop
    generalize hnext : (st.search s exprs highlight).advance s exprs = next at hloop hle hout
    obtain ⟨st', tags⟩ := next
    have hraw := rawtext_of_advance hnext
    have hle : st.lastpos ≤ st'.lastpos := hle
    simp only at hloop
    cases hout with
    | goes hat' _ hiff _ _ =>
      have hblocked := mt hiff.mp hclear
      by_cases hgo : st'.Open ∨ st'.lastpos < s.length
      · rw [if_pos hgo] at hloop
        obtain ⟨rest, hrest, rfl⟩ := map_eq_some_iff.mp hloop
        have hrun : s.length < st'.lastpos + _ := ih hat' hblocked hrest
        have hmid := length_mid_of_le hle hat'.le
        rw [length_rawtext_cons _ _ hraw]
        omega
      · obtain ⟨rfl, rfl, -⟩ := hat'.ended hgo
        exact absurd (nofun) hblocked
    | back hlinks hfits hback _ =>
      have hgo : st'.Open ∨ st'.lastpos < s.length := by
        rcases hback with ⟨hpos, -⟩ | ⟨-, a, l, -, -, hlt⟩
        · exact .inl (.inr (.inr hpos))
        · exact .inr hlt
      rw [if_pos hgo] at hloop
      obtain ⟨rest, hrest, rfl⟩ := map_eq_some_iff.mp hloop
      have hrun : s.length < st'.lastpos + _ := lt_length_of_back hlinks hfits hback hrest
      have hmid := length_mid_of_le hle hfits
      rw [length_rawtext_cons _ _ hraw]
      omega
    | ends _ _ hclear' _ _ => exact absurd hclear' hclear

/-! ## The text of a message -/

theorem loop_mono {fuel' : ℕ}
    (hloop : loop s exprs highlight fuel st = some items) (hle : fuel ≤ fuel') :
    loop s exprs highlight fuel' st = some items := by
  induction fuel generalizing st items fuel' with
  | zero => cases hloop
  | succ fuel ih =>
    obtain ⟨fuel', rfl⟩ := Nat.exists_eq_succ_of_ne_zero (Nat.zero_lt_of_lt hle).ne'
    rw [loop_succ] at hloop ⊢
    simp only at hloop ⊢
    split_ifs at hloop ⊢
    · obtain ⟨rest, hrest, rfl⟩ := map_eq_some_iff.mp hloop
      rw [ih hrest (Nat.le_of_succ_le_succ hle)]
      rfl
    · exact hloop

variable (s exprs highlight) in
/-- The links of a message. -/
def textLinks : List Link := links exprs (s.length + 1) 0

variable (s exprs highlight) in
/-- The highlights of a message. -/
def textMarks : List Mark :=
  marks highlight (s.length + (edges (textLinks s exprs)).length + 1) (edges (textLinks s exprs)) 0

/-- What a link has matched. -/
def Link.cap (s : List Char) (link : Link) : List Char :=
  (s.drop link.start).take (link.stop - link.start)

theorem quot_notMem_target_iff (exprs : Option (Kind → LinkExpression s.length)) (link : Link) :
    '"' ∉ link.target s exprs ↔ '"' ∉ link.cap s := by
  have hscheme : ∀ k : Kind, '"' ∉ k.scheme := fun k => by cases k <;> decide
  rw [Link.target]
  cases exprs with
  | none => exact Iff.rfl
  | some e =>
    simp only [href]
    split_ifs
    · rw [mem_append, not_or, and_iff_right (hscheme _)]
      rfl
    · exact Iff.rfl

/-- The loop begins before all links and highlights. -/
theorem at_start : At exprs highlight Pending.Looks {} none (textLinks s exprs) none
    (textMarks s exprs highlight) := by
  have hlinks : LinksFrom exprs 0 (textLinks s exprs) := linksFrom_links (by omega)
  refine ⟨.between (fun _ => rfl) (fun _ => .inl rfl) hlinks, ⟨rfl, fun m hm => (by cases hm), ?_⟩,
    fun m hm => (by cases hm), Nat.zero_le _⟩
  have hmarks : MarksFrom highlight (edges (textLinks s exprs)) 0 (textMarks s exprs highlight) :=
    marksFrom_marks (by omega)
  exact hmarks

/-- **The texts that come out as they were, with their tags**: those of which no link blocks a
highlight; and, where the text is escaped, no link has a double quote. -/
theorem marks_iff (s : List Char) (useHTML highlightURLs : Bool)
    (e : Kind → LinkExpression s.length) (highlight : Option (Expression s.length)) :
    (∃ fuel items, toRichText s highlightURLs e highlight fuel = some items ∧
        Marks useHTML s items) ↔
      Clear s.length (textLinks s (linkExpressions s highlightURLs e))
          (textMarks s (linkExpressions s highlightURLs e) highlight) ∧
        (useHTML = false → ∀ link ∈ textLinks s (linkExpressions s highlightURLs e),
          '"' ∉ link.cap s) := by
  generalize hexprs : linkExpressions s highlightURLs e = exprs
  have hrun : ∀ fuel,
      toRichText s highlightURLs e highlight fuel = loop s exprs highlight fuel {} :=
    fun fuel => by rw [toRichText, hexprs]
  simp only [hrun]
  have hstart : At exprs highlight Pending.Looks {} none (textLinks s exprs) none
      (textMarks s exprs highlight) := at_start
  have hquot : ∀ items : List Item,
      items.filterMap Item.href? = (textLinks s exprs).map (Link.target s exprs) →
      ((∀ href ∈ items.filterMap Item.href?, '"' ∉ href) ↔
        ∀ link ∈ textLinks s exprs, '"' ∉ link.cap s) := by
    intro items hhref
    rw [hhref, List.forall_mem_map]
    exact forall₂_congr fun link _ => quot_notMem_target_iff exprs link
  constructor
  · rintro ⟨fuel, items, hloop, htext, hnested, hmeaning⟩
    rw [flatMap_written] at htext
    have htext := written_injective useHTML htext
    have hclear : Clear s.length (textLinks s exprs) (textMarks s exprs highlight) := by
      by_contra hblocked
      have hlong := run_blocked hstart hblocked hloop
      rw [htext, Nat.zero_add] at hlong
      exact Nat.lt_irrefl _ hlong
    refine ⟨hclear, fun hplain => ?_⟩
    obtain ⟨fuel', items', hloop', -, -, hhref⟩ := run_clear _ hstart (Nat.lt_succ_self _) hclear
    have hsame : items = items' := by
      have h := loop_mono hloop (Nat.le_max_left fuel fuel')
      rw [loop_mono hloop' (Nat.le_max_right fuel fuel')] at h
      exact (Option.some.inj h).symm
    subst hsame hplain
    exact (hquot items hhref).mp ((read_render_iff items).mp (hmeaning rfl))
  · rintro ⟨hclear, hquotes⟩
    obtain ⟨fuel, items, hloop, htext, hnested, hhref⟩ :=
      run_clear _ hstart (Nat.lt_succ_self _) hclear
    refine ⟨fuel, items, hloop, ?_, hnested, ?_⟩
    · rw [flatMap_written, htext]
      rfl
    · rintro rfl
      exact (read_render_iff items).mpr ((hquot items hhref).mpr (hquotes rfl))

/-- An address with a user's name, and more text. -/
def addressText : List Char :=
  ['h', 't', 't', 'p', ':', '/', '/', 'a', '@', 'b', '.', 'c', 'c', '/', 'x', 'y', 'z', ' ', '.']

/-- What the two expressions match there. -/
def addressLinks (k : Kind) : LinkExpression addressText.length :=
  match k with
  | .url => ⟨.single 0 17 (by decide), Expression.single_ne_zero (by decide),
      fun _ => ['h', 't', 't', 'p']⟩
  | .mail => ⟨.single 7 6 (by decide), Expression.single_ne_zero (by decide), fun _ => []⟩

/-- The last letters of the address are to be highlighted. -/
def addressHighlight : Expression addressText.length := .single 14 3 (by decide)

/-- A highlight of the last letters of the address is blocked by the mail address in it, and what
comes behind the link is given twice. -/
theorem not_marks_address :
    ¬ ∃ fuel items,
      toRichText addressText true addressLinks (some addressHighlight) fuel = some items ∧
        Marks false addressText items := by
  rintro ⟨fuel, items, hloop, htext, -, -⟩
  have hrun : (toRichText addressText true addressLinks (some addressHighlight) 8).isSome :=
    by decide +kernel
  obtain ⟨items', hitems'⟩ := Option.isSome_iff_exists.mp hrun
  have hlen : ((toRichText addressText true addressLinks (some addressHighlight) 8).map
      fun items => (items.flatMap Item.rawtext).length) = some 24 := by decide +kernel
  rw [hitems'] at hlen
  have hsame : items = items' := by
    have h := loop_mono hloop (Nat.le_max_left fuel 8)
    rw [loop_mono hitems' (Nat.le_max_right fuel 8)] at h
    exact (Option.some.inj h).symm
  rw [← hsame] at hlen
  have hlen : (items.flatMap Item.rawtext).length = 24 := Option.some.inj hlen
  rw [flatMap_written] at htext
  rw [written_injective false htext] at hlen
  exact absurd hlen (by decide)

end Licq.MLView
