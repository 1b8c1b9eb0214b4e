import Licq.Icq.SplitFE

/-!
# Icq/ContactEvent — the number of contacts that a list declares

The first field of a contact list is a text that `atoi` reads, the result becomes a `size_t`, and
the number of fields is compared with twice of it and two, which wraps.  A count of minus one wraps to
zero fields, and the loop over the contacts runs past the last one.

The **main result** `readsDeclared_iff` says for which texts the list is refused, or has as many
contacts as are declared.
-/

namespace Licq

open Text

/-- The number that a field declares, before any type holds it. -/
def declaredCount (part : List UInt8) : ℤ :=
  let (neg, s) := readSign ((byteChars part).dropWhile isSpace)
  if neg then -(readDigits s : ℤ) else readDigits s

/-- The list has as many contacts as are declared, each from its two fields. -/
structure DeclaredContacts (myOwnerId : UserId) (parts : List (List UInt8)) (vc : List EventContact) :
    Prop where
  count : (vc.length : ℤ) = declaredCount parts.headI
  contacts : ∀ i c, vc[i]? = some c → ∃ id alias_, parts[2 * i + 1]? = some id ∧
    parts[2 * i + 2]? = some alias_ ∧ c = ⟨.user myOwnerId (byteChars id), alias_⟩

/-- There is no list, or one that is as it was declared; nothing is thrown. -/
def ReadsDeclared (myOwnerId : UserId) (s : List UInt8) (userEncoding : Encoding) : Prop :=
  parseContactEvent myOwnerId s userEncoding = .ok none ∨
    ∃ vc, parseContactEvent myOwnerId s userEncoding = .ok (some vc) ∧
      DeclaredContacts myOwnerId (splitFE s 0 userEncoding) vc

/-! ## The count -/

/-- `atoi` keeps what an `int` can hold. -/
theorem atoi_of_declared {part : List UInt8} (h : 0 ≤ declaredCount part)
    (hlt : declaredCount part < 2 ^ 31) : atoi (byteChars part) = declaredCount part := by
  rw [atoi, strtol]
  rw [declaredCount] at h hlt ⊢
  generalize readSign ((byteChars part).dropWhile isSpace) = r at h hlt ⊢
  obtain ⟨neg, s⟩ := r
  cases neg with
  | true =>
    simp only [if_true] at h hlt ⊢
    rw [Int.bmod_eq_of_le] <;> omega
  | false =>
    simp only [Bool.false_eq_true, if_false] at h hlt ⊢
    rw [Int.bmod_eq_of_le] <;> omega

/-- The count of a number that is not negative is this number. -/
theorem contactCount_of_nonneg {part : List UInt8} (h : 0 ≤ atoi (byteChars part)) :
    (contactCount part : ℤ) = atoi (byteChars part) := by
  have hbounds := atoi_bounds (byteChars part)
  rw [contactCount]
  omega

/-- **What the number of fields is compared with.** -/
theorem wrapped_contactCount (part : List UInt8) :
    (((contactCount part * 2 + 2) % 2 ^ 64 : ℕ) : ℤ) = (atoi (byteChars part) * 2 + 2) % 2 ^ 64 := by
  rw [contactCount]
  omega

/-! ## The fields -/

section Fields

variable {myOwnerId : UserId} {count : ℕ} {parts : List (List UInt8)} {vc : List EventContact}

/-- The loop ends when there are two fields for every contact. -/
theorem exists_readContacts (h : count * 2 ≤ parts.length) :
    ∃ vc, readContacts myOwnerId count parts = some vc := by
  induction count generalizing parts with
  | zero => exact ⟨[], by cases parts <;> rfl⟩
  | succ count ih =>
    match parts with
    | id :: alias_ :: parts =>
      simp only [List.length_cons] at h
      obtain ⟨vc, hvc⟩ := @ih parts (by omega)
      exact ⟨_, by rw [readContacts, hvc]; rfl⟩
    | [id] =>
      simp only [List.length_singleton] at h
      omega
    | [] =>
      simp only [List.length_nil] at h
      omega

/-- …and only then. -/
theorem length_of_readContacts (h : readContacts myOwnerId count parts = some vc) :
    count * 2 ≤ parts.length := by
  fun_induction readContacts myOwnerId count parts generalizing vc with
  | case1 parts => omega
  | case2 count id alias_ parts ih =>
    obtain ⟨vc', hvc, -⟩ := Option.map_eq_some_iff.mp h
    have := ih hvc
    simp only [List.length_cons]
    omega
  | case3 => cases h

/-- **Every contact is read from its two fields.** -/
theorem readContacts_fields (h : readContacts myOwnerId count parts = some vc) {i : ℕ}
    {c : EventContact} (hc : vc[i]? = some c) : ∃ id alias_, parts[2 * i]? = some id ∧
      parts[2 * i + 1]? = some alias_ ∧ c = ⟨.user myOwnerId (byteChars id), alias_⟩ := by
  fun_induction readContacts myOwnerId count parts generalizing vc i with
  | case1 parts =>
    cases h
    cases hc
  | case2 count id alias_ parts ih =>
    obtain ⟨vc', hvc, rfl⟩ := Option.map_eq_some_iff.mp h
    cases i with
    | zero => exact ⟨id, alias_, rfl, rfl, (Option.some.inj hc).symm⟩
    | succ i => exact ih hvc hc
  | case3 => cases h

end Fields

/-! ## The parser -/

variable {myOwnerId : UserId} {s : List UInt8} {userEncoding : Encoding}

theorem parseContactEvent_eq_none_iff : parseContactEvent myOwnerId s userEncoding = .ok none ↔
    (splitFE s 0 userEncoding).length
      < (contactCount (splitFE s 0 userEncoding).headI * 2 + 2) % 2 ^ 64 := by
  rw [parseContactEvent]
  split_ifs with hfew
  · exact iff_of_true rfl hfew
  · refine iff_of_false (fun h => ?_) hfew
    cases hread : readContacts myOwnerId (contactCount (splitFE s 0 userEncoding).headI)
        (splitFE s 0 userEncoding).tail with
    | none => simp only [hread] at h; cases h
    | some vc => simp only [hread] at h; cases h

theorem length_splitFE_le (s : List UInt8) (userEncoding : Encoding) :
    (splitFE s 0 userEncoding).length ≤ s.length + 1 := by
  rw [splitFE, List.length_map, length_splitParts]
  exact Nat.succ_le_succ List.countP_le_length

/-- **Main result.**  The list is refused or is as it was declared exactly when the number is one that
an `int` holds and not negative; or `atoi` makes a number below minus one of it, or one that there are
too few fields for. -/
theorem readsDeclared_iff (myOwnerId : UserId) (userEncoding : Encoding) {s : List UInt8}
    (hs : s.length < 2 ^ 63) : ReadsDeclared myOwnerId s userEncoding ↔
      let parts := splitFE s 0 userEncoding
      let count := atoi (byteChars parts.headI)
      0 ≤ declaredCount parts.headI ∧ declaredCount parts.headI < 2 ^ 31 ∨
        count < -1 ∨ 0 ≤ count ∧ (parts.length : ℤ) < count * 2 + 2 := by
  have hlength := length_splitFE_le s userEncoding
  rw [ReadsDeclared, parseContactEvent_eq_none_iff]
  simp only [parseContactEvent_eq_some_iff]
  generalize splitFE s 0 userEncoding = parts at hlength ⊢
  have hbounds := atoi_bounds (byteChars parts.headI)
  have hwrap := wrapped_contactCount parts.headI
  have htail : parts.tail.length = parts.length - 1 := List.length_tail
  constructor
  · rintro (hfew | ⟨vc, ⟨-, hread⟩, hdeclared⟩)
    · omega
    · -- A list that is returned has as many contacts as the wrapped number says.
      have hcount := readContacts_length hread
      have hfields := length_of_readContacts hread
      have hnonneg : 0 ≤ declaredCount parts.headI := hdeclared.count ▸ Int.natCast_nonneg _
      have heq := hdeclared.count
      refine .inl ⟨hnonneg, ?_⟩
      by_cases hsign : 0 ≤ atoi (byteChars parts.headI)
      · have := contactCount_of_nonneg hsign
        omega
      · rw [contactCount] at hcount hfields
        omega
  · intro h
    by_cases hfew : parts.length < (contactCount parts.headI * 2 + 2) % 2 ^ 64
    · exact .inl hfew
    · have hdeclared : 0 ≤ declaredCount parts.headI ∧ declaredCount parts.headI < 2 ^ 31 := by
        rcases h with h | h | h
        · exact h
        · omega
        · omega
      have hatoi := atoi_of_declared hdeclared.1 hdeclared.2
      have hcount := contactCount_of_nonneg (hatoi ▸ hdeclared.1)
      obtain ⟨vc, hvc⟩ := @exists_readContacts myOwnerId (contactCount parts.headI) parts.tail
        (by omega)
      refine .inr ⟨vc, ⟨by omega, hvc⟩, ⟨?_, fun i c hc => ?_⟩⟩
      · rw [readContacts_length hvc, hcount, hatoi]
      · obtain ⟨id, alias_, hid, halias, heq⟩ := readContacts_fields hvc hc
        rw [List.getElem?_tail] at hid halias
        exact ⟨id, alias_, hid, halias, heq⟩

/-- Two contacts that are declared and there. -/
def twoContacts : List UInt8 := [0x32, 0xFE, 0x31, 0xFE, 0x41, 0xFE, 0x32, 0xFE, 0x42, 0xFE]

theorem readsDeclared_twoContacts : ReadsDeclared (.owner icqPpid ['9']) twoContacts .utf8 :=
  (readsDeclared_iff (.owner icqPpid ['9']) .utf8 (by decide)).mpr (.inl (by decide))

/-- Minus one contacts. -/
def minusOne : List UInt8 := [0x2D, 0x31]

/-- 2³² contacts, of which there are none. -/
def tooMany : List UInt8 := [0x34, 0x32, 0x39, 0x34, 0x39, 0x36, 0x37, 0x32, 0x39, 0x36, 0xFE]

/-- **A count of minus one throws**, and one that does not fit in an `int` is taken for another. -/
theorem not_readsDeclared :
    parseContactEvent (.owner icqPpid ['9']) minusOne .utf8 = .error .outOfRange ∧
      parseContactEvent (.owner icqPpid ['9']) tooMany .utf8 = .ok (some []) ∧
      ¬ ReadsDeclared (.owner icqPpid ['9']) minusOne .utf8 ∧
      ¬ ReadsDeclared (.owner icqPpid ['9']) tooMany .utf8 := by
  have hminus : parseContactEvent (.owner icqPpid ['9']) minusOne .utf8 = .error .outOfRange := rfl
  have hmany : parseContactEvent (.owner icqPpid ['9']) tooMany .utf8 = .ok (some []) := rfl
  refine ⟨hminus, hmany, ?_, ?_⟩
  · rintro (h | ⟨vc, h, -⟩)
    · exact absurd (hminus.symm.trans h) (by decide)
    · cases hminus.symm.trans h
  · rintro (h | ⟨vc, h, hdeclared⟩)
    · cases hmany.symm.trans h
    · cases hmany.symm.trans h
      exact absurd hdeclared.count (by decide)

end Licq
