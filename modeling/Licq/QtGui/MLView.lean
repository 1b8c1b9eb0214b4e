import Licq.Text.Expression
import Licq.Text.Markup

/-!
# QtGui/MLView — links and highlights in a text

The loop of `toRichText` merges three streams of matches into a text: those of URLs and mail
addresses, which become links, and those of an expression to highlight.  A highlight that crosses
the edge of a link is closed and opened again there.

While a link is open the pending match of the other kind may begin inside of it, and from there on
the loop neither begins nor ends a highlight.  Behind the link that highlight is behind the loop as
well, which then goes back and repeats what it copied.  The text comes out with its tags exactly
when this does not happen and no link has a double quote (`QtGui/MLViewText`).
-/

open Text (Expression Token read escape)

namespace Licq.MLView

/-! ## The loop -/

inductive Kind
  | url | mail
  deriving DecidableEq

def Kind.other : Kind → Kind
  | .url => .mail
  | .mail => .url

/-- What is put before a match without its first group. -/
def Kind.scheme : Kind → List Char
  | .url => ['h', 't', 't', 'p', ':', '/', '/']
  | .mail => ['m', 'a', 'i', 'l', 't', 'o', ':']

/-- The expressions `reURL` and `reMail`: no match is empty, and a match has its first group. -/
structure LinkExpression (n : ℕ) extends Expression n where
  ne_zero : ∀ {q l : ℕ}, matchAt q = some l → l ≠ 0
  cap1 : ℕ → List Char

/-- A position of the next match: -2, -1, or the position with the length. -/
inductive Pending
  | search
  | none
  | found (pos len : ℕ)
  deriving DecidableEq

/-- `*Pos` with `*Len`, and `*End`. -/
structure Stream where
  pos : Pending := .search
  stop : ℕ := 0

structure State where
  link : Kind → Stream := fun _ => {}
  hl : Stream := {}
  lastpos : ℕ := 0

/-- What is appended to the text. -/
inductive Item
  | text (rawtext : List Char)
  | link (href : List Char)
  | linkEnd
  | highlight
  | highlightEnd

variable {n : ℕ}

/-- The search for the next match, if there is an expression. -/
def Stream.next (e : Option (Expression n)) (lastpos : ℕ) (x : Stream) : Stream :=
  match x.pos, e with
  | .search, some e =>
    match e.indexOf (max x.stop lastpos) with
    | none => { x with pos := .none }
    | some (q, l) => if l = 0 then x else { x with pos := .found q l }
  | _, _ => x

/-- There is no match pending before or at a position. -/
def Pending.Above (x : ℕ) : Pending → Prop
  | .found q _ => x < q
  | _ => True

/-- There is no match pending before a position. -/
def Pending.AtLeast (x : ℕ) : Pending → Prop
  | .found q _ => x ≤ q
  | _ => True

instance (x : ℕ) : ∀ p : Pending, Decidable (p.Above x)
  | .found _ _ => inferInstanceAs (Decidable (_ < _))
  | .search | .none => .isTrue trivial

instance (x : ℕ) : ∀ p : Pending, Decidable (p.AtLeast x)
  | .found _ _ => inferInstanceAs (Decidable (_ ≤ _))
  | .search | .none => .isTrue trivial

/-- A highlight may end at a position as far as the links of a kind go. -/
def State.Closes (st : State) (x : ℕ) (k : Kind) : Prop :=
  (st.link k).pos.AtLeast x ∧ ((st.link k).stop = 0 ∨ x ≤ (st.link k).stop)

/-- A highlight may begin at a position as far as the links of a kind go. -/
def State.Opens (st : State) (x : ℕ) (k : Kind) : Prop :=
  (st.link k).pos.Above x ∧ ((st.link k).stop = 0 ∨ x < (st.link k).stop)

instance (st : State) (x : ℕ) (k : Kind) : Decidable (st.Closes x k) :=
  inferInstanceAs (Decidable (_ ∧ _))

instance (st : State) (x : ℕ) (k : Kind) : Decidable (st.Opens x k) :=
  inferInstanceAs (Decidable (_ ∧ _))

/-- The highlight that begins next. -/
def State.opening (st : State) : Option (ℕ × ℕ) :=
  match st.hl.pos with
  | .found q l => if st.hl.stop = 0 ∧ st.Opens q .url ∧ st.Opens q .mail then some (q, l) else none
  | _ => none

/-- The link that begins next. -/
def State.starting (st : State) : Option (Kind × ℕ × ℕ) :=
  match (st.link .url).pos, (st.link .mail).pos with
  | .found q l, .none => some (.url, q, l)
  | .found q l, .found r m => if q ≤ r then some (.url, q, l) else some (.mail, r, m)
  | _, .found r m => some (.mail, r, m)
  | _, _ => none

/-- An open highlight is closed before the tags of a link and opened again behind them. -/
def State.breakhl (st : State) (tag : Item) : List Item :=
  if 0 < st.hl.stop then [.highlightEnd, tag, .highlight] else [tag]

def State.setLink (st : State) (k : Kind) (x : Stream) : State :=
  { st with link := fun j => if j = k then x else st.link j }

/-- End of a link; the match of the other kind is looked for again. -/
def State.closeLink (st : State) (k : Kind) : State :=
  let x := st.link k
  { (st.setLink k { x with stop := 0 }).setLink k.other { st.link k.other with pos := .search } with
    lastpos := x.stop }

/-- Start of a link. -/
def State.openLink (st : State) (k : Kind) (q l : ℕ) : State :=
  { st.setLink k ⟨.search, q + l⟩ with lastpos := q }

section Loop

variable (s : List Char) (exprs : Option (Kind → LinkExpression s.length))
  (highlight : Option (Expression s.length))

/-- The target of a link. -/
def href (k : Kind) (q l : ℕ) : List Char :=
  let cap := (s.drop q).take l
  match exprs with
  | some e => if (e k).cap1 q = [] then k.scheme ++ cap else cap
  | none => cap

/-- The searches at the beginning of the loop's body. -/
def State.search (st : State) : State :=
  { st with
    link := fun k => (st.link k).next (exprs.map fun e => (e k).toExpression) st.lastpos
    hl := st.hl.next highlight st.lastpos }

/-- The cascade of the loop's body, with the tags. -/
def State.advance (st : State) : State × List Item :=
  if 0 < st.hl.stop ∧ st.Closes st.hl.stop .url ∧ st.Closes st.hl.stop .mail then
    ({ st with hl := { st.hl with stop := 0 }, lastpos := st.hl.stop }, [.highlightEnd])
  else
    match st.opening with
    | some (q, l) => ({ st with hl := ⟨.search, q + l⟩, lastpos := q }, [.highlight])
    | none =>
      if 0 < (st.link .url).stop then (st.closeLink .url, st.breakhl .linkEnd)
      else if 0 < (st.link .mail).stop then (st.closeLink .mail, st.breakhl .linkEnd)
      else
        match st.starting with
        | some (k, q, l) => (st.openLink k q l, st.breakhl (.link (href s exprs k q l)))
        | none => ({ st with lastpos := s.length }, [])

/-- `QString::mid` with the difference of two positions; a negative one asks for all the rest. -/
def mid (pos newpos : ℕ) : List Char :=
  if newpos < pos then s.drop pos else (s.drop pos).take (newpos - pos)

/-- Something is open. -/
def State.Open (st : State) : Prop :=
  0 < (st.link .url).stop ∨ 0 < (st.link .mail).stop ∨ 0 < st.hl.stop

instance (st : State) : Decidable st.Open := inferInstanceAs (Decidable (_ ∨ _ ∨ _))

/-- The loop; none where the fuel runs out. -/
def loop : ℕ → State → Option (List Item)
  | 0, _ => none
  | fuel + 1, st =>
    let (st', tags) := (st.search s exprs highlight).advance s exprs
    let items := .text (mid s st.lastpos st'.lastpos) :: tags
    if st'.Open ∨ st'.lastpos < s.length then (loop fuel st').map (items ++ ·) else some items

end Loop

/-- The text is not highlighted already. -/
def plainLinks (s : List Char) : Bool :=
  s.tails.all fun t => ¬ ['<', 'a', ' ', 'h', 'r', 'e', 'f'] <+: t.map Char.toLower

/-- The expressions of the links, which are empty where no link is to be made. -/
def linkExpressions (s : List Char) (highlightURLs : Bool)
    (e : Kind → LinkExpression s.length) : Option (Kind → LinkExpression s.length) :=
  if highlightURLs && plainLinks s then some e else none

/-- What the loop of `toRichText` appends. -/
def toRichText (s : List Char) (highlightURLs : Bool) (e : Kind → LinkExpression s.length)
    (highlight : Option (Expression s.length)) (fuel : ℕ) : Option (List Item) :=
  loop s (linkExpressions s highlightURLs e) highlight fuel {}

/-! ## What is asked of the items -/

/-- A text as it is appended. -/
def written (useHTML : Bool) (s : List Char) : List Char := if useHTML then s else escape s

/-- The text of an item. -/
def Item.rawtext : Item → List Char
  | .text s => s
  | _ => []

def Item.href? : Item → Option (List Char)
  | .link s => some s
  | _ => none

/-- The tags up to their values. -/
def aHref : List Char := ['a', ' ', 'h', 'r', 'e', 'f', '=']

def spanStyle : List Char := ['s', 'p', 'a', 'n', ' ', 's', 't', 'y', 'l', 'e', '=']

/-- The style of `highlightStart`. -/
def highlightStyle : List Char :=
  ['b', 'a', 'c', 'k', 'g', 'r', 'o', 'u', 'n', 'd', '-', 'c', 'o', 'l', 'o', 'r', ':', ' ', 'y',
    'e', 'l', 'l', 'o', 'w', ';', ' ', 'c', 'o', 'l', 'o', 'r', ':', ' ', 'b', 'l', 'a', 'c', 'k']

/-- An item as it is appended. -/
def Item.render (useHTML : Bool) : Item → List Char
  | .text s => written useHTML s
  | .link href => Text.valueTag aHref href
  | .linkEnd => ['<', '/', 'a', '>']
  | .highlight => Text.valueTag spanStyle highlightStyle
  | .highlightEnd => ['<', '/', 's', 'p', 'a', 'n', '>']

/-- What an item stands for. -/
def Item.meaning : Item → List Token
  | .text s => s.map .char
  | .link href => [.tag [aHref, href, []]]
  | .linkEnd => [.tag [['/', 'a']]]
  | .highlight => [.tag [spanStyle, highlightStyle, []]]
  | .highlightEnd => [.tag [['/', 's', 'p', 'a', 'n']]]

inductive Element
  | a | span
  deriving DecidableEq

/-- Every tag closes the element that was opened last, and none is left open. -/
def Nested : List Element → List Item → Prop
  | stack, [] => stack = []
  | stack, .text _ :: items => Nested stack items
  | stack, .link _ :: items => Nested (.a :: stack) items
  | stack, .highlight :: items => Nested (.span :: stack) items
  | stack, .linkEnd :: items => stack.head? = some .a ∧ Nested stack.tail items
  | stack, .highlightEnd :: items => stack.head? = some .span ∧ Nested stack.tail items

/-- The items are the text with tags in it. -/
structure Marks (useHTML : Bool) (s : List Char) (items : List Item) : Prop where
  text : items.flatMap (fun i => written useHTML i.rawtext) = written useHTML s
  nested : Nested [] items
  meaning : useHTML = false →
    read .text (items.flatMap (Item.render useHTML)) = items.flatMap Item.meaning

/-! ## Reading the items -/

/-- **The items are read as what they stand for exactly when no target has a double quote.** -/
theorem read_render_iff (items : List Item) :
    read .text (items.flatMap (Item.render false)) = items.flatMap Item.meaning ↔
      ∀ href ∈ items.filterMap Item.href?, '"' ∉ href := by
  induction items with
  | nil => exact iff_of_true rfl nofun
  | cons i items ih =>
    rw [List.flatMap_cons, List.flatMap_cons, List.filterMap_cons]
    cases i with
    | text s =>
      have hread := Text.read_escape s (items.flatMap (Item.render false))
      rw [show Item.render false (.text s) = escape s from rfl, hread]
      exact (List.append_cancel_left_eq _ _ _).to_iff.trans ih
    | link href =>
      have hread := Text.read_valueTag_iff (show '"' ∉ aHref by decide) (by decide) href
        (items.flatMap (Item.render false)) (items.flatMap Item.meaning)
      rw [show Item.href? (.link href) = some href from rfl, List.forall_mem_cons, ← ih]
      exact hread
    | linkEnd =>
      have hread := Text.read_tag (x := ['/', 'a']) (by decide) (by decide)
        (items.flatMap (Item.render false))
      rw [show Item.href? .linkEnd = none from rfl, ← ih]
      exact (congrArg (· = _) hread).to_iff.trans (List.cons_eq_cons.trans (and_iff_right rfl))
    | highlight =>
      have hread := Text.read_valueTag_iff (show '"' ∉ spanStyle by decide) (by decide)
        highlightStyle (items.flatMap (Item.render false)) (items.flatMap Item.meaning)
      rw [show Item.href? .highlight = none from rfl, ← ih]
      exact hread.trans (and_iff_right (by decide))
    | highlightEnd =>
      have hread := Text.read_tag (x := ['/', 's', 'p', 'a', 'n']) (by decide) (by decide)
        (items.flatMap (Item.render false))
      rw [show Item.href? .highlightEnd = none from rfl, ← ih]
      exact (congrArg (· = _) hread).to_iff.trans (List.cons_eq_cons.trans (and_iff_right rfl))

theorem written_append (useHTML : Bool) (a b : List Char) :
    written useHTML (a ++ b) = written useHTML a ++ written useHTML b := by
  rw [written, written, written]
  split_ifs
  · rfl
  · exact List.flatMap_append

theorem written_injective (useHTML : Bool) : Function.Injective (written useHTML) := by
  cases useHTML with
  | false => exact Text.escape_injective
  | true => exact fun _ _ h => h

theorem flatMap_written (useHTML : Bool) (items : List Item) :
    items.flatMap (fun i => written useHTML i.rawtext) =
      written useHTML (items.flatMap Item.rawtext) := by
  induction items with
  | nil => cases useHTML <;> rfl
  | cons i items ih => rw [List.flatMap_cons, List.flatMap_cons, written_append, ih]

end Licq.MLView
