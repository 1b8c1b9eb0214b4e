import Mathlib.Data.List.Infix
import Mathlib.Data.List.TakeWhile

/-!
# Text/Translator — line ends and encodings

What `Translator` makes of a text on its way to the other side and back: the line ends of DOS, which
the protocols put as a line feed and a carriage return in this order, and the encoding of the peer,
which `iconv` converts to.
-/

namespace Licq

open List

/-! ## Line ends -/

/-- The line feed. -/
def lf : UInt8 := 0x0A

/-- The carriage return. -/
def cr : UInt8 := 0x0D

/-- `Translator::returnToDos`: every line feed gets a carriage return behind it, if it has none. -/
def returnToDos : List UInt8 → List UInt8
  | [] => []
  | c :: s => if c = lf ∧ s.head? ≠ some cr then c :: cr :: returnToDos s else c :: returnToDos s

/-- The first loop of `returnToUnix`: the carriage return after a line feed goes. -/
def dropReturns : List UInt8 → List UInt8
  | [] => []
  | [c] => [c]
  | c :: d :: s => if c = lf ∧ d = cr then lf :: dropReturns s else c :: dropReturns (d :: s)

/-- `Translator::returnToUnix`: the carriage returns that are left become line feeds. -/
def returnToUnix (s : List UInt8) : List UInt8 :=
  (dropReturns s).map fun c => if c = cr then lf else c

theorem length_dropReturns_le (s : List UInt8) : (dropReturns s).length ≤ s.length := by
  fun_induction dropReturns s with
  | case1 => exact Nat.le_refl 0
  | case2 c => exact Nat.le_refl 1
  | case3 c d s h ih =>
    simp only [length_cons]
    omega
  | case4 c d s h ih =>
    simp only [length_cons] at ih ⊢
    omega

theorem length_returnToUnix_le (s : List UInt8) : (returnToUnix s).length ≤ s.length := by
  rw [returnToUnix, length_map]
  exact length_dropReturns_le s

variable {s : List UInt8} {c : UInt8}

theorem returnToUnix_eq_nil : returnToUnix s = [] ↔ s = [] := by
  rw [returnToUnix, map_eq_nil_iff]
  fun_cases dropReturns s with
  | case1 => exact Iff.rfl
  | case2 c => exact Iff.rfl
  | case3 c d s h => exact iff_of_false (cons_ne_nil _ _) (cons_ne_nil _ _)
  | case4 c d s h => exact iff_of_false (cons_ne_nil _ _) (cons_ne_nil _ _)

theorem cr_notMem_returnToUnix (s : List UInt8) : cr ∉ returnToUnix s := by
  intro h
  obtain ⟨c, -, hc⟩ := mem_map.mp h
  split_ifs at hc with heq
  · exact absurd hc (by decide)
  · exact heq hc

theorem dropReturns_of_notMem (h : cr ∉ s) : dropReturns s = s := by
  fun_induction dropReturns s with
  | case1 => rfl
  | case2 c => rfl
  | case3 c d s heq ih => exact absurd (mem_cons_of_mem c (heq.2 ▸ mem_cons_self)) h
  | case4 c d s heq ih => rw [ih fun hmem => h (mem_cons_of_mem c hmem)]

/-- **A text without carriage returns stays as it is**, and only such a text. -/
theorem returnToUnix_eq_self_iff : returnToUnix s = s ↔ cr ∉ s := by
  constructor
  · intro h
    rw [← h]
    exact cr_notMem_returnToUnix s
  · intro h
    rw [returnToUnix, dropReturns_of_notMem h]
    refine (map_congr_left fun c hc => ?_).trans (map_id s)
    exact if_neg fun heq : c = cr => h (heq ▸ hc)

theorem dropReturns_cons_of_ne (h : c ≠ lf) (s : List UInt8) :
    dropReturns (c :: s) = c :: dropReturns s := by
  cases s with
  | nil => rfl
  | cons d s => exact if_neg fun hand => h hand.1

theorem dropReturns_lf (h : s.head? ≠ some cr) : dropReturns (lf :: s) = lf :: dropReturns s := by
  cases s with
  | nil => rfl
  | cons d s => exact if_neg fun hand => h (congrArg some hand.2)

theorem dropReturns_lf_cr (s : List UInt8) : dropReturns (lf :: cr :: s) = lf :: dropReturns s :=
  if_pos ⟨rfl, rfl⟩

theorem dropReturns_returnToDos (s : List UInt8) :
    dropReturns (returnToDos s) = dropReturns s := by
  induction s with
  | nil => rfl
  | cons c s ih =>
    rw [returnToDos]
    split_ifs with hbare
    · obtain ⟨rfl, hhead⟩ := hbare
      rw [dropReturns_lf_cr, dropReturns_lf hhead, ih]
    · by_cases hc : c = lf
      · subst hc
        cases s with
        | nil => exact absurd ⟨rfl, by decide⟩ hbare
        | cons d s =>
          obtain rfl : d = cr := by
            by_contra hd
            exact hbare ⟨rfl, fun heq => hd (Option.some.inj heq)⟩
          have hdos : returnToDos (cr :: s) = cr :: returnToDos s :=
            if_neg fun hand => absurd hand.1 (by decide)
          rw [hdos, dropReturns_cons_of_ne (by decide), dropReturns_cons_of_ne (by decide)] at ih
          rw [hdos, dropReturns_lf_cr, dropReturns_lf_cr, (List.cons.inj ih).2]
      · rw [dropReturns_cons_of_ne hc, dropReturns_cons_of_ne hc, ih]

/-- **The line ends of DOS are turned back.** -/
theorem returnToUnix_returnToDos (s : List UInt8) :
    returnToUnix (returnToDos s) = returnToUnix s := by
  rw [returnToUnix, dropReturns_returnToDos, returnToUnix]

/-- A text with the line ends of DOS, if it has no carriage return yet. -/
def dosBytes (s : List UInt8) : List UInt8 := s.flatMap fun c => if c = lf then [lf, cr] else [c]

theorem dosBytes_append (a b : List UInt8) : dosBytes (a ++ b) = dosBytes a ++ dosBytes b :=
  flatMap_append

theorem dosBytes_of_notMem (h : lf ∉ s) : dosBytes s = s := by
  induction s with
  | nil => rfl
  | cons c s ih =>
    rw [mem_cons, not_or] at h
    rw [dosBytes, flatMap_cons, if_neg (Ne.symm h.1), ← dosBytes, ih h.2,
      singleton_append]

theorem returnToDos_of_notMem (h : cr ∉ s) : returnToDos s = dosBytes s := by
  induction s with
  | nil => rfl
  | cons c s ih =>
    rw [mem_cons, not_or] at h
    rw [returnToDos, dosBytes, flatMap_cons, ← dosBytes, ih h.2]
    have hhead : s.head? ≠ some cr := fun hsome => h.2 (mem_of_mem_head? hsome)
    split_ifs with hbare hlf hlf
    · rw [hlf]
      rfl
    · exact absurd hbare.1 hlf
    · exact absurd ⟨hlf, hhead⟩ hbare
    · rfl

/-- The line ends of a text are turned back, and what is behind it stays. -/
theorem returnToUnix_dosBytes_append {t : List UInt8} (hs : cr ∉ s) (ht : cr ∉ t) :
    returnToUnix (dosBytes s ++ t) = s ++ t := by
  have hdrop : dropReturns (dosBytes s ++ t) = s ++ t := by
    induction s with
    | nil => exact dropReturns_of_notMem ht
    | cons c s ih =>
      rw [mem_cons, not_or] at hs
      rw [dosBytes, flatMap_cons, ← dosBytes]
      split_ifs with hlf
      · rw [hlf]
        exact (dropReturns_lf_cr _).trans (congrArg _ (ih hs.2))
      · exact (dropReturns_cons_of_ne hlf _).trans (congrArg _ (ih hs.2))
  have hst : cr ∉ s ++ t := by
    rw [mem_append, not_or]
    exact ⟨hs, ht⟩
  have hself := returnToUnix_eq_self_iff.mpr hst
  rw [returnToUnix, dropReturns_of_notMem hst] at hself
  rw [returnToUnix, hdrop, hself]

theorem length_dropReturns_cons (c : UInt8) (s : List UInt8) :
    (dropReturns s).length ≤ (dropReturns (c :: s)).length ∧
      (c ≠ lf → (dropReturns (c :: s)).length = (dropReturns s).length + 1) := by
  by_cases hc : c = lf
  · subst hc
    refine ⟨?_, fun h => absurd rfl h⟩
    by_cases hhead : s.head? = some cr
    · obtain ⟨s, rfl⟩ := head?_eq_some_iff.mp hhead
      rw [dropReturns_lf_cr, dropReturns_cons_of_ne (by decide), length_cons, length_cons]
    · rw [dropReturns_lf hhead]
      exact Nat.le_succ _
  · rw [dropReturns_cons_of_ne hc]
    exact ⟨Nat.le_succ _, fun _ => rfl⟩

/-- A text in front makes a text longer, if it has more than line feeds. -/
theorem length_returnToUnix_append (x s : List UInt8) :
    (returnToUnix s).length ≤ (returnToUnix (x ++ s)).length ∧
      ((∃ c ∈ x, c ≠ lf) → (returnToUnix s).length < (returnToUnix (x ++ s)).length) := by
  simp only [returnToUnix, length_map]
  induction x with
  | nil => exact ⟨Nat.le_refl _, fun ⟨c, hc, _⟩ => by cases hc⟩
  | cons c x ih =>
    obtain ⟨hle, hone⟩ := length_dropReturns_cons c (x ++ s)
    rw [cons_append]
    refine ⟨ih.1.trans hle, ?_⟩
    rintro ⟨d, hd, hdne⟩
    by_cases hc : c = lf
    · rcases mem_cons.mp hd with rfl | hd
      · exact absurd hc hdne
      · exact (ih.2 ⟨d, hd, hdne⟩).trans_le hle
    · rw [hone hc]
      exact Nat.lt_succ_of_le ih.1

theorem mem_dropReturns (hc : c ≠ cr) : c ∈ dropReturns s ↔ c ∈ s := by
  fun_induction dropReturns s with
  | case1 => exact Iff.rfl
  | case2 d => exact Iff.rfl
  | case3 d e s h ih =>
    obtain ⟨rfl, rfl⟩ := h
    simp only [mem_cons, ih, hc, false_or]
  | case4 d e s h ih => rw [mem_cons, ih, ← mem_cons]

/-- Other bytes than those of line ends stay. -/
theorem mem_returnToUnix (hcr : c ≠ cr) (hlf : c ≠ lf) : c ∈ returnToUnix s ↔ c ∈ s := by
  rw [returnToUnix, mem_map]
  constructor
  · rintro ⟨d, hd, heq⟩
    split_ifs at heq with hdcr
    · exact absurd heq.symm hlf
    · exact heq ▸ (mem_dropReturns hdcr).mp hd
  · exact fun h => ⟨c, (mem_dropReturns hcr).mpr h, if_neg hcr⟩

theorem mem_returnToDos (hcr : c ≠ cr) : c ∈ returnToDos s ↔ c ∈ s := by
  induction s with
  | nil => exact Iff.rfl
  | cons d s ih =>
    rw [returnToDos]
    split_ifs
    · simp only [mem_cons, ih, hcr, false_or]
    · rw [mem_cons, ih, mem_cons]

theorem returnToDos_eq_nil : returnToDos s = [] ↔ s = [] := by
  cases s with
  | nil => exact Iff.rfl
  | cons c s =>
    refine iff_of_false ?_ (cons_ne_nil c s)
    rw [returnToDos]
    split_ifs <;> exact not_false

/-- A text that is the beginning of its own DOS form has no line feed without a carriage return
behind it, but perhaps at its end. -/
theorem returnToDos_cases (h : s <+: returnToDos s) :
    returnToDos s = s ∨ returnToDos s = s ++ [cr] := by
  induction s with
  | nil => exact .inl rfl
  | cons c s ih =>
    rw [returnToDos] at h ⊢
    split_ifs at h ⊢ with hbare
    · have htail := (cons_prefix_cons.mp h).2
      cases s with
      | nil => exact .inr rfl
      | cons d s =>
        have hd := (cons_prefix_cons.mp htail).1
        exact absurd (congrArg some hd) hbare.2
    · rcases ih (cons_prefix_cons.mp h).2 with heq | heq
      · exact .inl (by rw [heq])
      · exact .inr (by rw [heq]; rfl)

/-! ## Encodings -/

/-- What `iconv` does with a pair of descriptors from UTF-8 to an encoding and back.  It reads an
input from its start and writes into a buffer of a size until the input is at its end, cannot be
converted any further or does not fit. -/
structure Iconv where
  encode : List UInt8 → ℕ → List UInt8
  decode : List UInt8 → ℕ → List UInt8
  /-- More input and more room give more output. -/
  encode_mono : ∀ {p q : List UInt8} {m n : ℕ}, p <+: q → m ≤ n → encode p m <+: encode q n
  decode_mono : ∀ {p q : List UInt8} {m n : ℕ}, p <+: q → m ≤ n → decode p m <+: decode q n
  /-- A text comes back, up to where it could not be converted. -/
  decode_encode : ∀ (s : List UInt8) (m n : ℕ), decode (encode s m) n <+: s
  /-- A text does not come back from less than it was encoded to. -/
  needed : ∀ {s p : List UInt8} {m n : ℕ}, decode p n = s → p <+: encode s m → p = encode s m
  /-- There is no byte 0xFE in UTF-8. -/
  utf8 : ∀ (s : List UInt8) (n : ℕ), 0xFE ∉ decode s n
  /-- No encoding has a byte 0xFE for the carriage return. -/
  encode_return : ∀ {s p : List UInt8} {m n : ℕ},
    decode p n = s → p <+: encode (s ++ [cr]) m → 0xFE ∉ p → 0xFE ∉ encode (s ++ [cr]) m

namespace Iconv

/-- What ASCII has of a text. -/
def asciiPart (s : List UInt8) (n : ℕ) : List UInt8 := (s.takeWhile (· < 0x80)).take n

theorem asciiPart_isPrefix (s : List UInt8) (n : ℕ) : asciiPart s n <+: s :=
  (List.take_prefix n _).trans (List.takeWhile_prefix _)

theorem asciiPart_mono {p q : List UInt8} {m n : ℕ} (h : p <+: q) (hle : m ≤ n) :
    asciiPart p m <+: asciiPart q n := by
  have hwhile : p.takeWhile (· < 0x80) <+: q.takeWhile (· < 0x80) := by
    obtain ⟨t, rfl⟩ := h
    rw [takeWhile_append]
    split_ifs
    · exact (List.takeWhile_prefix _).trans (prefix_append _ _)
    · exact prefix_rfl
  refine (take_prefix_take_left hle).trans ?_
  exact List.IsPrefix.take hwhile n

theorem notMem_asciiPart (s : List UInt8) (n : ℕ) : 0xFE ∉ asciiPart s n := by
  intro h
  have hlt := mem_takeWhile_imp (mem_of_mem_take h)
  exact absurd hlt (by decide)

/-- US-ASCII, which has the bytes that UTF-8 has for it. -/
def ascii : Iconv where
  encode := asciiPart
  decode := asciiPart
  encode_mono := asciiPart_mono
  decode_mono := asciiPart_mono
  decode_encode := fun s m n => (asciiPart_isPrefix _ n).trans (asciiPart_isPrefix s m)
  needed := fun {s p m n} h hp => by
    have hs : s <+: p := h ▸ asciiPart_isPrefix p n
    have heq : p = s := (hp.trans (asciiPart_isPrefix s m)).eq_of_length_le hs.length_le
    subst heq
    exact hp.eq_of_length_le (asciiPart_isPrefix p m).length_le
  utf8 := notMem_asciiPart
  encode_return := fun _ _ _ => notMem_asciiPart _ _

instance inhabited : Inhabited Iconv := ⟨ascii⟩

end Iconv

/-- An encoding by its name: that of UTF-8, one that `iconv` does not know, or one that it does. -/
inductive Encoding
  | utf8
  | unknown
  | known (i : Iconv)

namespace Encoding

variable {enc : Encoding}

/-- `Translator::fromUtf8`, by `iconvConvert`. -/
def fromUtf8 : Encoding → List UInt8 → List UInt8
  | utf8, s => s
  | unknown, _ => []
  | known i, s => i.encode s (s.length * 2)

/-- `Translator::toUtf8`, by `iconvConvert`. -/
def toUtf8 : Encoding → List UInt8 → List UInt8
  | utf8, s => s
  | unknown, _ => []
  | known i, s => i.decode s (s.length * 2)

variable {p s : List UInt8}

theorem toUtf8_mono {p q : List UInt8} (h : p <+: q) : enc.toUtf8 p <+: enc.toUtf8 q := by
  cases enc with
  | utf8 => exact h
  | unknown => exact prefix_rfl
  | known i => exact i.decode_mono h (Nat.mul_le_mul_right 2 h.length_le)

theorem toUtf8_fromUtf8 (s : List UInt8) : enc.toUtf8 (enc.fromUtf8 s) <+: s := by
  cases enc with
  | utf8 => exact prefix_rfl
  | unknown => exact nil_prefix
  | known i => exact i.decode_encode s _ _

/-- **A text does not come back from less than it was encoded to.** -/
theorem eq_fromUtf8 (hp : p <+: enc.fromUtf8 s) (h : enc.toUtf8 p = s) : p = enc.fromUtf8 s := by
  cases enc with
  | utf8 => exact h
  | unknown => exact prefix_nil.mp hp
  | known i => exact i.needed h hp

/-- A text that a beginning of its encoded form gives comes back from the whole. -/
theorem toUtf8_fromUtf8_of_isPrefix (hp : p <+: enc.fromUtf8 s)
    (h : enc.toUtf8 p = s) : enc.toUtf8 (enc.fromUtf8 s) = s :=
  (eq_fromUtf8 hp h) ▸ h

theorem notMem_toUtf8 (h : 0xFE ∉ s) : 0xFE ∉ enc.toUtf8 s := by
  cases enc with
  | utf8 => exact h
  | unknown => exact not_mem_nil
  | known i => exact i.utf8 s _

theorem notMem_fromUtf8_return (hp : p <+: enc.fromUtf8 (s ++ [cr]))
    (h : enc.toUtf8 p = s) (hnot : 0xFE ∉ p) : 0xFE ∉ enc.fromUtf8 (s ++ [cr]) := by
  cases enc with
  | utf8 =>
    obtain rfl : p = s := h
    intro hmem
    rcases mem_append.mp hmem with hmem | hmem
    · exact hnot hmem
    · exact absurd (mem_singleton.mp hmem) (by decide)
  | unknown => exact not_mem_nil
  | known i => exact i.encode_return h hp hnot

end Encoding

end Licq
