import Mathlib.Data.List.Basic

/-!
# Text/Markup — escaped texts and tags

A reader of markup gives the characters of the text and the tags, each with the parts that the
double quotes in it separate: those at odd places are what stands between quotes.  An escaped text
is read as its characters (`read_escape`), so escaping is injective.

A tag with one attribute is read as such exactly when its value has no double quote
(`read_valueTag_iff`).
-/

namespace Text

open List

/-- The characters that have a meaning in markup are replaced.
-/
def escapeChar (c : Char) : List Char :=
  if c = '<' then ['&', 'l', 't', ';']
  else if c = '>' then ['&', 'g', 't', ';']
  else if c = '&' then ['&', 'a', 'm', 'p', ';']
  else if c = '"' then ['&', 'q', 'u', 'o', 't', ';']
  else [c]

def escape (s : List Char) : List Char := s.flatMap escapeChar

/-- What is read. -/
inductive Token
  | char (c : Char)
  | tag (parts : List (List Char))

/-- Where a reader is: in the text, or in a tag, between quotes or not, with the parts before. -/
inductive Place
  | text
  | tag (quoted : Bool) (parts : List (List Char)) (part : List Char)

def read : Place → List Char → List Token
  | .text, '&' :: 'l' :: 't' :: ';' :: s => .char '<' :: read .text s
  | .text, '&' :: 'g' :: 't' :: ';' :: s => .char '>' :: read .text s
  | .text, '&' :: 'a' :: 'm' :: 'p' :: ';' :: s => .char '&' :: read .text s
  | .text, '&' :: 'q' :: 'u' :: 'o' :: 't' :: ';' :: s => .char '"' :: read .text s
  | .text, c :: s => if c = '<' then read (.tag false [] []) s else .char c :: read .text s
  | .tag quoted parts part, c :: s =>
    if c = '"' then read (.tag (!quoted) (parts ++ [part]) []) s
    else if c = '>' ∧ quoted = false then .tag (parts ++ [part]) :: read .text s
    else read (.tag quoted parts (part ++ [c])) s
  | _, [] => []

theorem read_char {c : Char} (hlt : c ≠ '<') (hamp : c ≠ '&') (s : List Char) :
    read .text (c :: s) = .char c :: read .text s := by
  rw [read]
  · exact if_neg hlt
  all_goals exact fun _ h _ => hamp h

theorem read_escapeChar (c : Char) (s : List Char) :
    read .text (escapeChar c ++ s) = .char c :: read .text s := by
  rw [escapeChar]
  split_ifs with hlt hgt hamp hquot
  · rw [hlt]
    rfl
  · rw [hgt]
    rfl
  · rw [hamp]
    rfl
  · rw [hquot]
    rfl
  · exact read_char hlt hamp s

/-- **An escaped text is read as its characters.** -/
theorem read_escape (a s : List Char) :
    read .text (escape a ++ s) = a.map .char ++ read .text s := by
  induction a with
  | nil => rfl
  | cons c a ih =>
    rw [escape, flatMap_cons, append_assoc, read_escapeChar, ← escape, ih]
    rfl

theorem escape_injective : Function.Injective escape := by
  intro a b h
  have hread := read_escape a []
  rw [h, read_escape] at hread
  have hchar : Function.Injective Token.char := fun _ _ => Token.char.inj
  exact (hchar.list_map (append_cancel_right hread)).symm

/-! ## Tags -/

/-- What neither begins or ends a quotation nor ends the tag belongs to the part. -/
theorem read_part {quoted : Bool} {x : List Char} (hquot : '"' ∉ x)
    (hgt : quoted = true ∨ '>' ∉ x) (parts : List (List Char)) (part s : List Char) :
    read (.tag quoted parts part) (x ++ s) = read (.tag quoted parts (part ++ x)) s := by
  induction x generalizing part with
  | nil => rw [nil_append, append_nil]
  | cons c x ih =>
    rw [mem_cons, not_or] at hquot
    have hgt' : quoted = true ∨ '>' ∉ x :=
      hgt.imp_right fun h hmem => h (mem_cons_of_mem c hmem)
    have hend : ¬ (c = '>' ∧ quoted = false) := by
      rintro ⟨rfl, rfl⟩
      exact hgt.elim nofun fun h => h mem_cons_self
    rw [cons_append, read, if_neg (Ne.symm hquot.1), if_neg hend, ih hquot.2 hgt',
      append_assoc]
    rfl

theorem read_quote (quoted : Bool) (parts : List (List Char)) (part s : List Char) :
    read (.tag quoted parts part) ('"' :: s) = read (.tag (!quoted) (parts ++ [part]) []) s := by
  rw [read, if_pos rfl]

theorem read_gt (parts : List (List Char)) (part s : List Char) :
    read (.tag false parts part) ('>' :: s) = .tag (parts ++ [part]) :: read .text s := by
  rw [read, if_neg (by decide), if_pos ⟨rfl, rfl⟩]

/-- A tag without quotes. -/
theorem read_tag {x : List Char} (hquot : '"' ∉ x) (hgt : '>' ∉ x) (s : List Char) :
    read .text ('<' :: (x ++ '>' :: s)) = .tag [x] :: read .text s := by
  have hopen : read .text ('<' :: (x ++ '>' :: s)) = read (.tag false [] []) (x ++ '>' :: s) := rfl
  rw [hopen, read_part hquot (.inr hgt), read_gt]
  rfl

/-- The parts that a tag has already stay its first ones. -/
theorem read_parts (quoted : Bool) (parts : List (List Char)) (part s : List Char) :
    read (.tag quoted parts part) s = [] ∨
      ∃ more rest, read (.tag quoted parts part) s = .tag (parts ++ more) :: rest := by
  induction s generalizing quoted parts part with
  | nil => exact .inl rfl
  | cons c s ih =>
    rw [read]
    split_ifs
    · rcases ih (!quoted) (parts ++ [part]) [] with h | ⟨more, rest, h⟩
      · exact .inl h
      · exact .inr ⟨[part] ++ more, rest, by rw [h, append_assoc]⟩
    · exact .inr ⟨[part], _, rfl⟩
    · exact ih quoted parts (part ++ [c])

/-- A tag whose last attribute has a value in quotes. -/
def valueTag (name value : List Char) : List Char := '<' :: (name ++ '"' :: (value ++ ['"', '>']))

/-- **The value of an attribute is read as such exactly when it has no quote.** -/
theorem read_valueTag_iff {name : List Char} (hquot : '"' ∉ name) (hgt : '>' ∉ name)
    (value s : List Char) (r : List Token) :
    read .text (valueTag name value ++ s) = .tag [name, value, []] :: r ↔
      '"' ∉ value ∧ read .text s = r := by
  have hopen : read .text (valueTag name value ++ s) =
      read (.tag true [name] []) (value ++ '"' :: '>' :: s) := by
    have hcons : valueTag name value ++ s =
        '<' :: (name ++ '"' :: (value ++ '"' :: '>' :: s)) := by
      rw [valueTag, cons_append, append_assoc, cons_append, append_assoc]
      rfl
    have hlt : ∀ s, read .text ('<' :: s) = read (.tag false [] []) s := fun _ => rfl
    rw [hcons, hlt, read_part hquot (.inr hgt), read_quote]
    rfl
  rw [hopen]
  by_cases hmem : '"' ∈ value
  · refine iff_of_false (fun heq => ?_) fun h => h.1 hmem
    obtain ⟨a, b, rfl, ha⟩ := eq_append_cons_of_mem hmem
    rw [append_assoc, cons_append, read_part ha (.inl rfl), read_quote] at heq
    rcases read_parts false ([name] ++ [[] ++ a]) [] (b ++ '"' :: '>' :: s) with h | ⟨more, rest, h⟩
    · rw [show (!true) = false from rfl, h] at heq
      cases heq
    · rw [show (!true) = false from rfl, h] at heq
      obtain ⟨hparts, -⟩ := cons_eq_cons.mp heq
      have hvalue := congrArg (fun ps => ps.tail.headD []) (Token.tag.inj hparts)
      have hlen := congrArg List.length (show a = a ++ '"' :: b from hvalue)
      rw [length_append, length_cons] at hlen
      omega
  · have htag : Token.tag ([name] ++ [[] ++ value] ++ [[]]) = .tag [name, value, []] := rfl
    rw [read_part hmem (.inl rfl), read_quote, show (!true) = false from rfl, read_gt,
      cons_eq_cons, and_iff_right htag]
    exact (and_iff_right hmem).symm

end Text
