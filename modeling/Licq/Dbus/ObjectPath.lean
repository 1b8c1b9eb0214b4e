import Licq.ContactList.UserId
import Licq.Text.Bytes

/-!
# Dbus/ObjectPath — accounts in D-Bus object paths

An object path has letters, digits and underscores only.  `encodeObjectPathPart` writes any other
byte of an account as an underscore and two digits, `decodeObjectPathPart` reads it back.  The loop of
the latter compares a position, or the value for none, with the length of the string less three as an
unsigned number: on two characters it never ends (`decodes_iff`).
-/

open Text

namespace Licq.Dbus

open List Option

/-! ## Strings -/

/-- `std::string::npos` -/
def npos : UInt64 := 0xFFFFFFFFFFFFFFFF

/-- `s.size()` -/
def size (s : List UInt8) : UInt64 := UInt64.ofNat s.length

/-- `s.find(c, pos)` -/
def find (s : List UInt8) (c : UInt8) (pos : UInt64) : UInt64 :=
  match (s.drop pos.toNat).idxOf? c with
  | some i => pos + UInt64.ofNat i
  | none => npos

/-- `s.substr(pos, n)`, of a position in the string. -/
def substr (s : List UInt8) (pos n : UInt64) : List UInt8 := (s.drop pos.toNat).take n.toNat

/-- `ret.append(s, pos, n)`, which throws for a position that is not in the string. -/
def append (ret s : List UInt8) (pos n : UInt64) : Option (List UInt8) :=
  if pos.toNat ≤ s.length then some (ret ++ substr s pos n) else none

/-- `s[pos]`, which is NUL at the end of the string; none behind it. -/
def charAt (s : List UInt8) (pos : UInt64) : Option UInt8 :=
  if pos.toNat = s.length then some 0 else s[pos.toNat]?

/-! ## Parts of a path -/

def allowedChars : List UInt8 :=
  asciiBytes ['0', '1', '2', '3', '4', '5', '6', '7', '8', '9',
    'A', 'B', 'C', 'D', 'E', 'F', 'G', 'H', 'I', 'J', 'K', 'L', 'M', 'N', 'O', 'P', 'Q', 'R', 'S',
    'T', 'U', 'V', 'W', 'X', 'Y', 'Z',
    'a', 'b', 'c', 'd', 'e', 'f', 'g', 'h', 'i', 'j', 'k', 'l', 'm', 'n', 'o', 'p', 'q', 'r', 's',
    't', 'u', 'v', 'w', 'x', 'y', 'z']

/-- `'_'` -/
def escape : UInt8 := 0x5F

/-- `allowedChars[n]` -/
def digit (n : UInt8) : UInt8 := allowedChars.getD n.toNat 0

/-- `encodeObjectPathPart` -/
def encodeObjectPathPart : List UInt8 → List UInt8
  | [] => []
  | c :: s =>
    if c ∈ allowedChars then c :: encodeObjectPathPart s
    else escape :: digit (c >>> 4 &&& 0x0f) :: digit (c &&& 0x0f) :: encodeObjectPathPart s

/-- The test for a character that is no digit of an escape.  As a `char` it is negative from 0x80 on,
and below `'0'`. -/
def notDigit (c : UInt8) : Bool := c < 0x30 || (0x39 < c && c < 0x41) || 0x46 < c

/-- `c - '0' - (c > '9' ? 7 : 0)` -/
def digitValue (c : UInt8) : UInt8 := c - 0x30 - (if 0x39 < c then 7 else 0)

/-- The loop of `decodeObjectPathPart`; none where it takes more rounds, throws or reads behind the end
of the string. -/
def decodeLoop (s : List UInt8) : ℕ → List UInt8 → UInt64 → Option (List UInt8)
  | 0, _, _ => none
  | rounds + 1, ret, lastpos =>
    let pos := find s escape lastpos
    if pos ≤ size s - 3 then do
      -- Add all characters before this escape
      let ret ← append ret s lastpos (pos - lastpos)
      let c1 ← charAt s (pos + 1)
      let c2 ← charAt s (pos + 2)
      if notDigit c1 || notDigit c2 then decodeLoop s rounds (ret ++ [escape]) (pos + 1)
      else decodeLoop s rounds (ret ++ [(digitValue c1 <<< 4) + digitValue c2]) (pos + 3)
    else append ret s lastpos npos

/-- `decodeObjectPathPart`, in at most so many rounds. -/
def decodeObjectPathPart (rounds : ℕ) (s : List UInt8) : Option (List UInt8) :=
  decodeLoop s rounds [] 0

/-- `decodeObjectPathPart` returns `r`, and reads nothing outside the string. -/
def Decodes (s r : List UInt8) : Prop := ∃ rounds, decodeObjectPathPart rounds s = some r

/-! ## Paths -/

/-- `'/'` -/
def slash : UInt8 := 0x2F

/-- `"/org/licq/ContactList/"` -/
def contactListPath : List UInt8 :=
  asciiBytes ['/', 'o', 'r', 'g', '/', 'l', 'i', 'c', 'q', '/', 'C', 'o', 'n', 't', 'a', 'c', 't',
    'L', 'i', 's', 't', '/']

/-- `Plugin::protocolIdToString` -/
def protocolIdToString (protocolId : ℕ) : List UInt8 :=
  if protocolId = icqPpid then asciiBytes ['I', 'C', 'Q']
  else if protocolId = msnPpid then asciiBytes ['M', 'S', 'N']
  else if protocolId = jabberPpid then asciiBytes ['J', 'a', 'b', 'b', 'e', 'r']
  else asciiBytes (Licq.protocolIdToString protocolId)

/-- `Plugin::userIdToObjectPath` -/
def userIdToObjectPath (userId : UserId) : List UInt8 :=
  let s := contactListPath ++ protocolIdToString userId.protocolId
  let s := if userId.accountId ≠ userId.ownerAccountId then
      s ++ [slash] ++ encodeObjectPathPart (asciiBytes userId.ownerId.accountId)
    else s
  s ++ [slash] ++ encodeObjectPathPart (asciiBytes userId.accountId)

/-- `UserId()` -/
def invalidUserId : UserId := UserId.owner 0 []

/-- `Plugin::objectPathToUserId`; none where decoding takes more rounds, throws or reads outside. -/
def objectPathToUserId (plugins : List ProtocolPlugin) (rounds : ℕ) (object : List UInt8) :
    Option UserId :=
  if object.take 22 ≠ contactListPath then some invalidUserId
  else
    let p1 := find object slash 23
    if p1 = npos then some invalidUserId
    else
      let protocolId := protocolIdFromString plugins (byteChars (substr object 22 (p1 - 22)))
      if protocolId = 0 then some invalidUserId
      else
        let p2 := find object slash (p1 + 1)
        if p2 = npos then
          -- Owner
          (decodeObjectPathPart rounds (substr object (p1 + 1) npos)).map fun accountId =>
            UserId.owner protocolId (byteChars accountId)
        else if find object slash (p2 + 1) ≠ npos then some invalidUserId
        else do
          let ownerAccountId ← decodeObjectPathPart rounds (substr object (p1 + 1) (p2 - p1 - 1))
          let accountId ← decodeObjectPathPart rounds (substr object (p2 + 1) npos)
          -- Owners shouldn't have the last level
          if accountId = ownerAccountId then some invalidUserId
          else some (UserId.user (UserId.owner protocolId (byteChars ownerAccountId))
            (byteChars accountId))

/-! ## Decoding -/

/-- What decoding gives: an underscore stays where no two digits follow. -/
def unescape : List UInt8 → List UInt8
  | [] => []
  | c :: s =>
    if c = escape then
      match s with
      | c1 :: c2 :: t =>
        if notDigit c1 || notDigit c2 then c :: unescape (c1 :: c2 :: t)
        else ((digitValue c1 <<< 4) + digitValue c2) :: unescape t
      | s => c :: s
    else c :: unescape s

theorem unescape_cons {c : UInt8} (hc : c ≠ escape) (s : List UInt8) :
    unescape (c :: s) = c :: unescape s := by
  rw [unescape.eq_def]
  exact if_neg hc

section Loop

variable {p t ret : List UInt8} {c : UInt8}

variable {s : List UInt8}

theorem toNat_size (h : s.length < 2 ^ 63) : (size s).toNat = s.length :=
  UInt64.toNat_ofNat_of_lt' (show s.length < 2 ^ 64 by omega)

theorem size_append (p t : List UInt8) : size (p ++ t) = size p + UInt64.ofNat t.length := by
  rw [size, length_append, UInt64.ofNat_add]
  rfl

theorem find_suffix (hp : p.length < 2 ^ 63) (t : List UInt8) (c : UInt8) :
    find (p ++ t) c (size p) =
      match t.idxOf? c with
      | some i => size p + UInt64.ofNat i
      | none => npos := by
  rw [find, toNat_size hp, drop_left]

theorem find_here (hp : p.length < 2 ^ 63) (c : UInt8) (t : List UInt8) :
    find (p ++ c :: t) c (size p) = size p := by
  rw [find_suffix hp, idxOf?_cons, if_pos (beq_self_eq_true c)]
  exact UInt64.add_zero _

theorem find_none (hp : p.length < 2 ^ 63) (h : c ∉ t) : find (p ++ t) c (size p) = npos := by
  rw [find_suffix hp, idxOf?_eq_none_iff.mpr h]

/-- A search goes on behind a character that it does not look for. -/
theorem find_skip {d : UInt8} (hp : p.length + 1 < 2 ^ 63) (hne : d ≠ c) (t : List UInt8) :
    find (p ++ d :: t) c (size p) = find (p ++ d :: t) c (size (p ++ [d])) := by
  have hsplit : p ++ d :: t = (p ++ [d]) ++ t := by rw [append_assoc]; rfl
  have hlen : (p ++ [d]).length < 2 ^ 63 := by rw [length_append]; exact hp
  rw [find_suffix (by omega), hsplit, find_suffix hlen, idxOf?_cons,
    if_neg (by simpa using hne)]
  cases t.idxOf? c with
  | none => rfl
  | some i =>
    show size p + UInt64.ofNat (i + 1) = size (p ++ [d]) + UInt64.ofNat i
    rw [size_append, UInt64.ofNat_add, UInt64.add_assoc]
    exact congrArg (size p + ·) (UInt64.add_comm _ _)

/-- A character that is found is in the string, from the place on where the search begins. -/
theorem find_suffix_cases (h : (p ++ t).length < 2 ^ 63) (c : UInt8) :
    find (p ++ t) c (size p) = npos ∨
      ∃ i < t.length, find (p ++ t) c (size p) = size p + UInt64.ofNat i := by
  rw [length_append] at h
  rw [find_suffix (by omega)]
  cases hfind : t.idxOf? c with
  | none => exact .inl rfl
  | some i =>
    refine .inr ⟨i, ?_, rfl⟩
    exact (idxOf?_eq_some_iff.mp hfind).choose

theorem append_all (h : (p ++ t).length < 2 ^ 63) :
    append ret (p ++ t) (size p) npos = some (ret ++ t) := by
  rw [length_append] at h
  have hp := toNat_size (s := p) (by omega)
  rw [append, if_pos (by rw [hp, length_append]; omega), substr, hp, drop_left,
    take_of_length_le (by show t.length ≤ 2 ^ 64 - 1; omega)]

theorem append_none (h : (p ++ t).length < 2 ^ 63) :
    append ret (p ++ t) (size p) (size p - size p) = some ret := by
  rw [length_append] at h
  have hp := toNat_size (s := p) (by omega)
  rw [append, if_pos (by rw [hp, length_append]; omega), substr, UInt64.sub_self]
  exact congrArg some (append_nil ret)

/-- An ordinary character is appended with what follows it up to `n`. -/
theorem append_skip (ret : List UInt8) {d : UInt8} (h : (p ++ d :: t).length < 2 ^ 63) {i : ℕ}
    (hi : i < t.length) :
    append ret (p ++ d :: t) (size p) (size p + UInt64.ofNat (i + 1) - size p) =
      append (ret ++ [d]) (p ++ d :: t) (size (p ++ [d]))
        (size (p ++ [d]) + UInt64.ofNat i - size (p ++ [d])) := by
  rw [length_append, length_cons] at h
  have hp := toNat_size (s := p) (by omega)
  have hp' := toNat_size (s := p ++ [d]) (by rw [length_append, length_singleton]; omega)
  have hcancel (a b : UInt64) : a + b - a = b := by rw [UInt64.add_comm, UInt64.add_sub_cancel]
  have hi1 : (UInt64.ofNat (i + 1)).toNat = i + 1 :=
    UInt64.toNat_ofNat_of_lt' (show i + 1 < 2 ^ 64 by omega)
  have hi0 : (UInt64.ofNat i).toNat = i := UInt64.toNat_ofNat_of_lt' (show i < 2 ^ 64 by omega)
  have hsplit : p ++ d :: t = (p ++ [d]) ++ t := by rw [append_assoc]; rfl
  rw [hcancel, hcancel, append, append, if_pos (by rw [hp, length_append]; omega),
    if_pos (by simp only [hp', length_append, length_cons, length_nil]; omega),
    substr, substr, hp, hp', hi1, hi0, drop_left, hsplit, drop_left, append_assoc]
  rfl

theorem charAt_suffix (h : (p ++ t).length < 2 ^ 63) {i : ℕ} (hi : i < t.length) :
    charAt (p ++ t) (size p + UInt64.ofNat i) = some t[i] := by
  rw [length_append] at h
  have hpos : (size p + UInt64.ofNat i).toNat = p.length + i := by
    rw [UInt64.toNat_add, toNat_size (by omega),
      UInt64.toNat_ofNat_of_lt' (show i < 2 ^ 64 by omega)]
    omega
  rw [charAt, hpos, if_neg (by rw [length_append]; omega),
    getElem?_append_right (by omega), Nat.add_sub_cancel_left, getElem?_eq_getElem hi]

/-- From three characters on, the bound of the loop is what it looks like. -/
theorem toNat_bound (h : s.length < 2 ^ 63) (h3 : 3 ≤ s.length) :
    (size s - 3).toNat = s.length - 3 := by
  have hle : (3 : UInt64) ≤ size s := by
    rw [UInt64.le_iff_toNat_le, toNat_size h]
    exact h3
  rw [UInt64.toNat_sub_of_le _ _ hle, toNat_size h]
  rfl

theorem not_npos_le (h : s.length < 2 ^ 63) (h3 : 3 ≤ s.length) : ¬ npos ≤ size s - 3 := by
  rw [UInt64.le_iff_toNat_le, toNat_bound h h3]
  show ¬ 2 ^ 64 - 1 ≤ s.length - 3
  omega

/-- **An ordinary character** is taken as it is. -/
theorem decodeLoop_skip (h : (p ++ c :: t).length < 2 ^ 63) (h3 : 3 ≤ (p ++ c :: t).length)
    (hc : c ≠ escape) (rounds : ℕ) (ret : List UInt8) :
    decodeLoop (p ++ c :: t) (rounds + 1) ret (size p) =
      decodeLoop (p ++ c :: t) (rounds + 1) (ret ++ [c]) (size (p ++ [c])) := by
  have hsplit : p ++ c :: t = (p ++ [c]) ++ t := by rw [append_assoc]; rfl
  have hlen : p.length + 1 < 2 ^ 63 := by
    rw [length_append, length_cons] at h
    omega
  have hfind := find_skip (c := escape) (by omega) hc t
  have hcases := find_suffix_cases (p := p ++ [c]) (t := t) (hsplit ▸ h) escape
  rw [← hsplit] at hcases
  have hend : append ret (p ++ c :: t) (size p) npos =
      append (ret ++ [c]) (p ++ c :: t) (size (p ++ [c])) npos := by
    rw [append_all h, hsplit, append_all (hsplit ▸ h), append_assoc]
    rfl
  rw [decodeLoop, decodeLoop, hfind, hend]
  rcases hcases with hnone | ⟨i, hi, hsome⟩
  · rw [hnone]
    simp only [if_neg (not_npos_le h h3)]
  · have hpos : size (p ++ [c]) + UInt64.ofNat i = size p + UInt64.ofNat (i + 1) := by
      rw [size_append, UInt64.ofNat_add, UInt64.add_assoc]
      exact congrArg (size p + ·) (UInt64.add_comm _ _)
    have hskip := append_skip ret h hi
    rw [hpos] at hskip
    rw [hsome, hpos, hskip]

/-- **An underscore with two characters behind it** is taken for an escape, if they are digits. -/
theorem decodeLoop_escape {c1 c2 : UInt8} (h : (p ++ escape :: c1 :: c2 :: t).length < 2 ^ 63)
    (rounds : ℕ) (ret : List UInt8) :
    decodeLoop (p ++ escape :: c1 :: c2 :: t) (rounds + 1) ret (size p) =
      if notDigit c1 || notDigit c2 then
        decodeLoop (p ++ escape :: c1 :: c2 :: t) rounds (ret ++ [escape]) (size (p ++ [escape]))
      else decodeLoop (p ++ escape :: c1 :: c2 :: t) rounds
        (ret ++ [(digitValue c1 <<< 4) + digitValue c2]) (size (p ++ [escape, c1, c2])) := by
  have hlen := h
  simp only [length_append, length_cons] at hlen
  have hle : size p ≤ size (p ++ escape :: c1 :: c2 :: t) - 3 := by
    have h3 : 3 ≤ (p ++ escape :: c1 :: c2 :: t).length := by
      simp only [length_append, length_cons]
      omega
    rw [UInt64.le_iff_toNat_le, toNat_bound h h3, toNat_size (by omega)]
    simp only [length_append, length_cons]
    omega
  have hc1 : charAt (p ++ escape :: c1 :: c2 :: t) (size p + 1) = some c1 :=
    charAt_suffix h (i := 1) (by simp)
  have hc2 : charAt (p ++ escape :: c1 :: c2 :: t) (size p + 2) = some c2 :=
    charAt_suffix h (i := 2) (by simp)
  have hsize1 : size (p ++ [escape]) = size p + 1 := size_append p [escape]
  have hsize3 : size (p ++ [escape, c1, c2]) = size p + 3 := size_append p [escape, c1, c2]
  rw [decodeLoop, find_here (by omega)]
  simp only [if_pos hle, append_none h, hc1, hc2, hsize1, hsize3, bind_eq_bind,
    bind_some]

/-- **The loop ends**, and gives what is left unescaped, of three characters or more. -/
theorem decodeLoop_unescape (h : (p ++ t).length < 2 ^ 63) (h3 : 3 ≤ (p ++ t).length)
    (ret : List UInt8) :
    ∃ rounds, decodeLoop (p ++ t) rounds ret (size p) = some (ret ++ unescape t) := by
  fun_induction unescape t generalizing p ret with
  | case1 =>
    refine ⟨1, ?_⟩
    rw [decodeLoop, find_none (by simpa using h) not_mem_nil]
    simp only [if_neg (not_npos_le h h3)]
    exact append_all h
  | case2 c1 c2 t hd ih =>
    obtain ⟨rounds, hrounds⟩ := ih (p := p ++ [escape]) (by simpa using h) (by simpa using h3)
      (ret ++ [escape])
    refine ⟨rounds + 1, ?_⟩
    rw [decodeLoop_escape h, if_pos hd]
    simpa using hrounds
  | case3 c1 c2 t hd ih =>
    obtain ⟨rounds, hrounds⟩ := ih (p := p ++ [escape, c1, c2]) (by simpa using h)
      (by simpa using h3) (ret ++ [(digitValue c1 <<< 4) + digitValue c2])
    refine ⟨rounds + 1, ?_⟩
    rw [decodeLoop_escape h, if_neg hd]
    simpa using hrounds
  | case4 s hs =>
    have hlen : s.length < 2 := by
      match s, hs with
      | [], _ => decide
      | [_], _ => exact Nat.lt_succ_self 1
      | c1 :: c2 :: t, hs => exact absurd rfl (hs c1 c2 t)
    have hgt : ¬ size p ≤ size (p ++ escape :: s) - 3 := by
      rw [UInt64.le_iff_toNat_le, toNat_bound h h3, toNat_size (by simp at h; omega)]
      simp only [length_append, length_cons] at h3 ⊢
      omega
    refine ⟨1, ?_⟩
    rw [decodeLoop, find_here (by simp at h; omega)]
    simp only [if_neg hgt]
    exact append_all h
  | case5 c s hc ih =>
    obtain ⟨rounds, hrounds⟩ := ih (p := p ++ [c]) (by simpa using h) (by simpa using h3)
      (ret ++ [c])
    cases rounds with
    | zero => cases hrounds
    | succ rounds =>
      refine ⟨rounds + 1, ?_⟩
      rw [decodeLoop_skip h h3 hc]
      simpa using hrounds

end Loop

variable {s r id : List UInt8}

/-- More rounds change nothing. -/
theorem decodeLoop_succ {ret : List UInt8} {rounds : ℕ} {lastpos : UInt64}
    (h : decodeLoop s rounds ret lastpos = some r) :
    decodeLoop s (rounds + 1) ret lastpos = some r := by
  induction rounds generalizing ret lastpos with
  | zero => cases h
  | succ rounds ih =>
    rw [decodeLoop] at h ⊢
    by_cases hle : find s escape lastpos ≤ size s - 3
    · simp only [if_pos hle, bind_eq_bind, bind_eq_some_iff] at h ⊢
      obtain ⟨ret', happend, c1, hc1, c2, hc2, h⟩ := h
      refine ⟨ret', happend, c1, hc1, c2, hc2, ?_⟩
      split_ifs at h ⊢
      · exact ih h
      · exact ih h
    · simp only [if_neg hle] at h ⊢
      exact h

theorem decodeLoop_le {ret : List UInt8} {m n : ℕ} {lastpos : UInt64} (hle : m ≤ n)
    (h : decodeLoop s m ret lastpos = some r) : decodeLoop s n ret lastpos = some r := by
  induction hle with
  | refl => exact h
  | step _ ih => exact decodeLoop_succ ih

theorem Decodes.unique {r' : List UInt8} (h : Decodes s r) (h' : Decodes s r') : r = r' := by
  obtain ⟨m, hm⟩ := h
  obtain ⟨n, hn⟩ := h'
  have hm := decodeLoop_le (Nat.le_add_right m n) hm
  have hn := decodeLoop_le (Nat.le_add_left n m) hn
  exact some.inj (hm.symm.trans hn)

/-- **Two characters** are decoded without end. -/
theorem decodeLoop_two (h : s.length = 2) (rounds : ℕ) (ret : List UInt8)
    (lastpos : UInt64) : decodeLoop s rounds ret lastpos = none := by
  induction rounds generalizing ret lastpos with
  | zero => rfl
  | succ rounds ih =>
    have hbound : size s - 3 = npos := by rw [size, h]; rfl
    have hle : find s escape lastpos ≤ npos := UInt64.le_iff_toNat_le.mpr
      (Nat.le_of_lt_succ (UInt64.toNat_lt _))
    rw [decodeLoop, hbound]
    simp only [if_pos hle, ih, ite_self]
    cases append ret s lastpos (find s escape lastpos - lastpos) with
    | none => rfl
    | some ret =>
      cases charAt s (find s escape lastpos + 1) with
      | none => rfl
      | some c1 => cases charAt s (find s escape lastpos + 2) <;> rfl

/-- A lone underscore is decoded with a look behind the end of the string. -/
theorem decodeLoop_escape_end (rounds : ℕ) : decodeLoop [escape] rounds [] 0 = none := by
  cases rounds <;> rfl

theorem decodes_unescape (h : s.length < 2 ^ 63) (hne2 : s.length ≠ 2)
    (hne : s ≠ [escape]) : Decodes s (unescape s) := by
  match s, h, hne2, hne with
  | [], _, _, _ => exact ⟨1, rfl⟩
  | [c], h, _, hne =>
    have hc : c ≠ escape := fun hc => hne (by rw [hc])
    have hunescape : unescape [c] = [c] := unescape_cons hc []
    have hfind : find [c] escape 0 = npos := find_none (p := []) (by decide) (by simpa using hc.symm)
    refine ⟨1, ?_⟩
    rw [decodeObjectPathPart, decodeLoop, hfind, hunescape]
    rfl
  | [_, _], _, hne2, _ => exact absurd rfl hne2
  | a :: b :: c :: s, h, _, _ =>
    exact decodeLoop_unescape (p := []) h (by simp) []

/-- **What decoding gives, and when**: a string of two characters and a lone underscore make the loop
go wrong, any other string is unescaped. -/
theorem decodes_iff (h : s.length < 2 ^ 63) :
    Decodes s r ↔ s.length ≠ 2 ∧ s ≠ [escape] ∧ r = unescape s := by
  constructor
  · rintro ⟨rounds, hr⟩
    have hne2 : s.length ≠ 2 := fun h2 => by
      rw [decodeObjectPathPart, decodeLoop_two h2] at hr
      cases hr
    have hne : s ≠ [escape] := by
      rintro rfl
      rw [decodeObjectPathPart, decodeLoop_escape_end] at hr
      cases hr
    exact ⟨hne2, hne, Decodes.unique ⟨rounds, hr⟩ (decodes_unescape h hne2 hne)⟩
  · rintro ⟨hne2, hne, rfl⟩
    exact decodes_unescape h hne2 hne

/-! ## Encoding -/

/-- An account that is written as it is, in two characters. -/
def TwoPlain (id : List UInt8) : Prop := id.length = 2 ∧ ∀ c ∈ id, c ∈ allowedChars

instance (id : List UInt8) : Decidable (TwoPlain id) :=
  @instDecidableAnd _ _ _ (List.decidableBAll (· ∈ allowedChars) id)

/-- The digits are letters and digits, and have the values they stand for. -/
theorem digit_spec {n : UInt8} (h : n.toNat < 16) :
    digit n ∈ allowedChars ∧ notDigit (digit n) = false ∧ digitValue (digit n) = n := by
  have hall : ∀ i : Fin 16, digit (UInt8.ofNat i) ∈ allowedChars ∧
      notDigit (digit (UInt8.ofNat i)) = false ∧
      digitValue (digit (UInt8.ofNat i)) = UInt8.ofNat i := by
    decide
  have hn := hall ⟨n.toNat, h⟩
  rwa [UInt8.ofNat_toNat] at hn

theorem toNat_high (c : UInt8) : (c >>> 4 &&& 0x0f).toNat = c.toNat / 16 := by
  have hlt := UInt8.toNat_lt c
  rw [UInt8.toNat_and, UInt8.toNat_shiftRight]
  refine (Nat.and_two_pow_sub_one_eq_mod _ 4).trans ?_
  rw [Nat.shiftRight_eq_div_pow]
  show c.toNat / 16 % 16 = c.toNat / 16
  omega

theorem toNat_low (c : UInt8) : (c &&& 0x0f).toNat = c.toNat % 16 := by
  rw [UInt8.toNat_and]
  exact Nat.and_two_pow_sub_one_eq_mod _ 4

theorem escape_notMem_allowedChars : escape ∉ allowedChars := by decide

/-- **An escape is read back.** -/
theorem unescape_escape (c : UInt8) (s : List UInt8) :
    unescape (escape :: digit (c >>> 4 &&& 0x0f) :: digit (c &&& 0x0f) :: s) = c :: unescape s := by
  have hlt := UInt8.toNat_lt c
  have hhigh := toNat_high c
  have hlow := toNat_low c
  obtain ⟨-, hdigit1, hvalue1⟩ := digit_spec (n := c >>> 4 &&& 0x0f) (by omega)
  obtain ⟨-, hdigit2, hvalue2⟩ := digit_spec (n := c &&& 0x0f) (by omega)
  have hvalue : ((c >>> 4 &&& 0x0f) <<< 4) + (c &&& 0x0f) = c := by
    refine UInt8.toNat_inj.mp ?_
    rw [UInt8.toNat_add, UInt8.toNat_shiftLeft, hhigh, hlow]
    show ((c.toNat / 16) <<< 4 % 2 ^ 8 + c.toNat % 16) % 2 ^ 8 = c.toNat
    rw [Nat.shiftLeft_eq]
    omega
  rw [unescape, if_pos rfl]
  simp only [hdigit1, hdigit2, hvalue1, hvalue2, Bool.or_self, Bool.false_eq_true, if_false, hvalue]

theorem unescape_encode (id : List UInt8) : unescape (encodeObjectPathPart id) = id := by
  induction id with
  | nil => rfl
  | cons c s ih =>
    rw [encodeObjectPathPart]
    split_ifs with hc
    · have hne : c ≠ escape := fun heq => escape_notMem_allowedChars (heq ▸ hc)
      rw [unescape_cons hne, ih]
    · rw [unescape_escape, ih]

/-- **An encoded account is of letters, digits and underscores.** -/
theorem mem_encode {c : UInt8} (h : c ∈ encodeObjectPathPart id) :
    c ∈ allowedChars ∨ c = escape := by
  induction id with
  | nil => exact absurd h not_mem_nil
  | cons d s ih =>
    have hlt := UInt8.toNat_lt d
    have hhigh := toNat_high d
    have hlow := toNat_low d
    rw [encodeObjectPathPart] at h
    split_ifs at h with hallowed
    · rcases mem_cons.mp h with rfl | h
      · exact .inl hallowed
      · exact ih h
    · rcases mem_cons.mp h with rfl | h
      · exact .inr rfl
      rcases mem_cons.mp h with rfl | h
      · exact .inl (digit_spec (by omega)).1
      rcases mem_cons.mp h with rfl | h
      · exact .inl (digit_spec (by omega)).1
      · exact ih h

theorem length_encode (id : List UInt8) :
    (encodeObjectPathPart id).length = id.length + 2 * id.countP (· ∉ allowedChars) := by
  induction id with
  | nil => rfl
  | cons c s ih =>
    rw [encodeObjectPathPart, countP_cons]
    by_cases hc : c ∈ allowedChars
    · rw [if_pos hc, length_cons, length_cons, ih, if_neg (by simpa using hc)]
      omega
    · rw [if_neg hc, length_cons, length_cons, length_cons, length_cons, ih,
        if_pos (by simpa using hc)]
      omega

theorem length_encode_eq_two_iff (id : List UInt8) :
    (encodeObjectPathPart id).length = 2 ↔ TwoPlain id := by
  have hle : id.countP (· ∉ allowedChars) ≤ id.length := countP_le_length
  have hplain : id.countP (· ∉ allowedChars) = 0 ↔ ∀ c ∈ id, c ∈ allowedChars := by
    simp only [countP_eq_zero, decide_eq_true_eq, not_not]
  rw [length_encode, TwoPlain, ← hplain]
  omega

theorem encode_ne_escape (id : List UInt8) : encodeObjectPathPart id ≠ [escape] := by
  cases id with
  | nil => exact cons_ne_nil _ _ ∘ Eq.symm
  | cons c s =>
    rw [encodeObjectPathPart]
    split_ifs with hc
    · intro h
      rw [(List.cons.inj h).1] at hc
      exact escape_notMem_allowedChars hc
    · intro h
      cases (List.cons.inj h).2

/-- **An account is decoded from what it is encoded as**, unless it is two characters that need no
escape. -/
theorem decodes_encode (h : (encodeObjectPathPart id).length < 2 ^ 63) :
    Decodes (encodeObjectPathPart id) id ↔ ¬ TwoPlain id := by
  rw [decodes_iff h, unescape_encode, Ne, length_encode_eq_two_iff]
  exact ⟨fun hdec => hdec.1, fun hnot => ⟨hnot, encode_ne_escape id, rfl⟩⟩

/-! ## Reading a path -/

section Path

variable {p t s : List UInt8} {c : UInt8}

theorem find_append (h : (p ++ t ++ c :: s).length < 2 ^ 63) (hc : c ∉ t) :
    find (p ++ t ++ c :: s) c (size p) = size (p ++ t) := by
  rw [length_append, length_append] at h
  have hidx : (t ++ c :: s).idxOf? c = some t.length := by
    rw [idxOf?_eq_some_iff]
    refine ⟨by simp, by simp, fun j hj hjt => ?_⟩
    rw [getElem_append_left hj] at hjt
    exact hc (hjt ▸ getElem_mem hj)
  rw [append_assoc, find_suffix (by omega), hidx, size_append]

theorem find_end (h : (p ++ t).length < 2 ^ 63) (hc : c ∉ t) : find (p ++ t) c (size p) = npos := by
  rw [length_append] at h
  exact find_none (by omega) hc

theorem size_ne_npos (h : p.length < 2 ^ 63) : size p ≠ npos := by
  intro heq
  have hnat := congrArg UInt64.toNat heq
  rw [toNat_size h] at hnat
  have hnpos : npos.toNat = 2 ^ 64 - 1 := rfl
  omega

theorem substr_mid (h : (p ++ t ++ s).length < 2 ^ 63) :
    substr (p ++ t ++ s) (size p) (size (p ++ t) - size p) = t := by
  rw [length_append, length_append] at h
  have ht : (size (p ++ t) - size p).toNat = t.length := by
    rw [size_append, UInt64.add_comm, UInt64.add_sub_cancel]
    exact UInt64.toNat_ofNat_of_lt' (show t.length < 2 ^ 64 by omega)
  rw [substr, toNat_size (by omega), ht, append_assoc, drop_left, take_left]

theorem substr_end (h : (p ++ t).length < 2 ^ 63) : substr (p ++ t) (size p) npos = t := by
  rw [length_append] at h
  rw [substr, toNat_size (by omega), drop_left]
  exact take_of_length_le (show t.length ≤ 2 ^ 64 - 1 by omega)

end Path

theorem slash_notMem_encode (id : List UInt8) : slash ∉ encodeObjectPathPart id := by
  intro h
  rcases mem_encode h with h | h
  · exact absurd h (by decide)
  · exact absurd h (by decide)

/-- The name of a known protocol in a path. -/
theorem protocolIdToString_known {protocolId : ℕ} (plugins : List ProtocolPlugin)
    (h : protocolId ∈ [icqPpid, msnPpid, jabberPpid]) :
    ∃ c name, protocolIdToString protocolId = c :: name ∧ slash ∉ name ∧
      protocolIdFromString plugins (byteChars (c :: name)) = protocolId ∧ protocolId ≠ 0 := by
  simp only [mem_cons, not_mem_nil, or_false] at h
  rcases h with rfl | rfl | rfl
  · exact ⟨_, _, rfl, by decide, rfl, by decide⟩
  · exact ⟨_, _, rfl, by decide, rfl, by decide⟩
  · exact ⟨_, _, rfl, by decide, rfl, by decide⟩

section Known

variable (plugins : List ProtocolPlugin) {protocolId : ℕ}
  (hknown : protocolId ∈ [icqPpid, msnPpid, jabberPpid])
include hknown

/-- The protocol is read from the path of a user, and what follows the slash behind it is left. -/
theorem objectPathToUserId_protocol (rounds : ℕ) {rest : List UInt8}
    (h : (contactListPath ++ protocolIdToString protocolId ++ [slash] ++ rest).length < 2 ^ 63) :
    objectPathToUserId plugins rounds
        (contactListPath ++ protocolIdToString protocolId ++ [slash] ++ rest) =
      let object := contactListPath ++ protocolIdToString protocolId ++ [slash] ++ rest
      let start := size (contactListPath ++ protocolIdToString protocolId ++ [slash])
      let p2 := find object slash start
      if p2 = npos then
        (decodeObjectPathPart rounds (substr object start npos)).map fun accountId =>
          UserId.owner protocolId (byteChars accountId)
      else if find object slash (p2 + 1) ≠ npos then some invalidUserId
      else
        (decodeObjectPathPart rounds (substr object start (p2 - start))).bind fun ownerAccountId =>
          (decodeObjectPathPart rounds (substr object (p2 + 1) npos)).bind fun accountId =>
            if accountId = ownerAccountId then some invalidUserId
            else some (UserId.user (UserId.owner protocolId (byteChars ownerAccountId))
              (byteChars accountId)) := by
  obtain ⟨c, name, hname, hslash, hid, hne⟩ := protocolIdToString_known plugins hknown
  have hobject : contactListPath ++ protocolIdToString protocolId ++ [slash] ++ rest =
      contactListPath ++ [c] ++ name ++ slash :: rest := by
    simp [hname]
  have hp1 : find (contactListPath ++ protocolIdToString protocolId ++ [slash] ++ rest) slash 23 =
      size (contactListPath ++ protocolIdToString protocolId) := by
    have hfind := find_append (p := contactListPath ++ [c]) (by rw [← hobject]; exact h) hslash
    rw [← hobject] at hfind
    refine hfind.trans ?_
    rw [hname, append_assoc]
    rfl
  have hname' : substr (contactListPath ++ protocolIdToString protocolId ++ [slash] ++ rest) 22
      (size (contactListPath ++ protocolIdToString protocolId) - 22) =
        protocolIdToString protocolId := by
    have hmid := substr_mid (p := contactListPath) (t := protocolIdToString protocolId)
      (s := [slash] ++ rest) (by rw [← append_assoc]; exact h)
    rw [← append_assoc] at hmid
    exact hmid
  have hsize := size_ne_npos (p := contactListPath ++ protocolIdToString protocolId) (by
    simp only [length_append] at h ⊢
    omega)
  have htake : (contactListPath ++ protocolIdToString protocolId ++ [slash] ++ rest).take 22 =
      contactListPath := by
    rw [append_assoc, append_assoc]
    exact take_left' (show contactListPath.length = 22 by decide)
  have hstart : size (contactListPath ++ protocolIdToString protocolId) + 1 =
      size (contactListPath ++ protocolIdToString protocolId ++ [slash]) :=
    (size_append (contactListPath ++ protocolIdToString protocolId) [slash]).symm
  rw [← hname] at hid
  rw [objectPathToUserId, if_neg (not_not.mpr htake), hp1, if_neg hsize, hname', hid, if_neg hne,
    hstart]
  have hsub (p2 : UInt64) : p2 - size (contactListPath ++ protocolIdToString protocolId) - 1 =
      p2 - size (contactListPath ++ protocolIdToString protocolId ++ [slash]) := by
    rw [← hstart]
    grind
  simp only [hsub]
  rfl

/-- **The path of an owner** is read up to its account. -/
theorem objectPathToUserId_owner (rounds : ℕ) {e : List UInt8} (he : slash ∉ e)
    (h : (contactListPath ++ protocolIdToString protocolId ++ [slash] ++ e).length < 2 ^ 63) :
    objectPathToUserId plugins rounds
        (contactListPath ++ protocolIdToString protocolId ++ [slash] ++ e) =
      (decodeObjectPathPart rounds e).map fun accountId =>
        UserId.owner protocolId (byteChars accountId) := by
  rw [objectPathToUserId_protocol plugins hknown rounds h]
  simp only [find_end h he, if_true, substr_end h]

/-- **The path of a contact** is read up to the owner's account and its own. -/
theorem objectPathToUserId_contact (rounds : ℕ) {o e : List UInt8} (ho : slash ∉ o) (he : slash ∉ e)
    (h : (contactListPath ++ protocolIdToString protocolId ++ [slash] ++
      (o ++ [slash] ++ e)).length < 2 ^ 63) :
    objectPathToUserId plugins rounds
        (contactListPath ++ protocolIdToString protocolId ++ [slash] ++ (o ++ [slash] ++ e)) =
      (decodeObjectPathPart rounds o).bind fun ownerAccountId =>
        (decodeObjectPathPart rounds e).bind fun accountId =>
          if accountId = ownerAccountId then some invalidUserId
          else some (UserId.user (UserId.owner protocolId (byteChars ownerAccountId))
            (byteChars accountId)) := by
  rw [objectPathToUserId_protocol plugins hknown rounds h]
  generalize contactListPath ++ protocolIdToString protocolId ++ [slash] = start at h ⊢
  have hobject : start ++ (o ++ [slash] ++ e) = start ++ o ++ slash :: e := by simp
  have hobject' : start ++ (o ++ [slash] ++ e) = (start ++ o ++ [slash]) ++ e := by simp
  have hp2 : find (start ++ (o ++ [slash] ++ e)) slash (size start) = size (start ++ o) := by
    rw [hobject]
    exact find_append (hobject ▸ h) ho
  have hnext : size (start ++ o) + 1 = size (start ++ o ++ [slash]) :=
    (size_append (start ++ o) [slash]).symm
  have hsize := size_ne_npos (p := start ++ o) (by
    rw [hobject, length_append] at h
    omega)
  have hlast : find (start ++ (o ++ [slash] ++ e)) slash (size (start ++ o ++ [slash])) = npos := by
    rw [hobject']
    exact find_end (hobject' ▸ h) he
  have howner : substr (start ++ (o ++ [slash] ++ e)) (size start) (size (start ++ o) - size start) =
      o := by
    rw [hobject]
    exact substr_mid (hobject ▸ h)
  have haccount : substr (start ++ (o ++ [slash] ++ e)) (size (start ++ o ++ [slash])) npos = e := by
    rw [hobject']
    exact substr_end (hobject' ▸ h)
  simp only [hp2, if_neg hsize, hnext, hlast, ne_eq, not_true_eq_false, if_false, howner, haccount]

end Known

/-- The strings that a user id holds are bytes. -/
def Bytes (s : List Char) : Prop := ∀ c ∈ s, c.toNat < 256

/-- An account of a user id that is written as it is, in two characters. -/
def TwoPlainAccount (s : List Char) : Prop := TwoPlain (asciiBytes s)

instance (s : List Char) : Decidable (TwoPlainAccount s) := by
  unfold TwoPlainAccount
  infer_instance

/-- What an encoded account is decoded to is that account. -/
theorem decode_encode {rounds : ℕ}
    (h : (encodeObjectPathPart id).length < 2 ^ 63)
    (hr : decodeObjectPathPart rounds (encodeObjectPathPart id) = some r) :
    ¬ TwoPlain id ∧ r = id := by
  obtain ⟨hlen, -, rfl⟩ := (decodes_iff h).mp ⟨rounds, hr⟩
  exact ⟨fun htwo => hlen ((length_encode_eq_two_iff id).mpr htwo), unescape_encode id⟩

section UserIds

variable (plugins : List ProtocolPlugin) {u : UserId}
  (hknown : u.protocolId ∈ [icqPpid, msnPpid, jabberPpid]) (ha : Bytes u.accountId)
  (h : (userIdToObjectPath u).length < 2 ^ 63)
include hknown ha h

/-- The path of an owner. -/
theorem objectPathToUserId_iff_of_owner (howner : u.IsOwner) :
    (∃ rounds, objectPathToUserId plugins rounds (userIdToObjectPath u) = some u) ↔
      ¬ TwoPlainAccount u.accountId := by
  have hpath : userIdToObjectPath u = contactListPath ++ protocolIdToString u.protocolId ++
      [slash] ++ encodeObjectPathPart (asciiBytes u.accountId) := by
    have heq : ¬ u.accountId ≠ u.ownerAccountId := not_not.mpr howner
    rw [userIdToObjectPath, if_neg heq]
  have hlen : (encodeObjectPathPart (asciiBytes u.accountId)).length < 2 ^ 63 := by
    rw [hpath, length_append] at h
    omega
  rw [hpath] at h ⊢
  constructor
  · rintro ⟨rounds, hr⟩
    rw [objectPathToUserId_owner plugins hknown rounds (slash_notMem_encode _) h,
      map_eq_some_iff] at hr
    obtain ⟨r, hr, -⟩ := hr
    exact (decode_encode hlen hr).1
  · intro hplain
    obtain ⟨rounds, hr⟩ := (decodes_encode hlen).mpr hplain
    refine ⟨rounds, ?_⟩
    rw [objectPathToUserId_owner plugins hknown rounds (slash_notMem_encode _) h, hr,
      map_some, byteChars_asciiBytes ha, UserId.owner_eq howner]

/-- The path of a contact. -/
theorem objectPathToUserId_iff_of_not_owner (howner : ¬ u.IsOwner)
    (ho : Bytes u.ownerAccountId) :
    (∃ rounds, objectPathToUserId plugins rounds (userIdToObjectPath u) = some u) ↔
      ¬ TwoPlainAccount u.ownerAccountId ∧ ¬ TwoPlainAccount u.accountId := by
  have hname : u.ownerId.accountId = u.ownerAccountId := u.owner_normal
  have hpath : userIdToObjectPath u = contactListPath ++ protocolIdToString u.protocolId ++
      [slash] ++ (encodeObjectPathPart (asciiBytes u.ownerAccountId) ++ [slash] ++
        encodeObjectPathPart (asciiBytes u.accountId)) := by
    have hne : u.accountId ≠ u.ownerAccountId := howner
    rw [userIdToObjectPath, if_pos hne, hname]
    simp only [append_assoc]
  have hleno : (encodeObjectPathPart (asciiBytes u.ownerAccountId)).length < 2 ^ 63 := by
    simp only [hpath, length_append] at h
    omega
  have hlena : (encodeObjectPathPart (asciiBytes u.accountId)).length < 2 ^ 63 := by
    simp only [hpath, length_append] at h
    omega
  rw [hpath] at h ⊢
  constructor
  · rintro ⟨rounds, hr⟩
    rw [objectPathToUserId_contact plugins hknown rounds (slash_notMem_encode _)
      (slash_notMem_encode _) h, bind_eq_some_iff] at hr
    obtain ⟨o, ho, hr⟩ := hr
    obtain ⟨a, ha, -⟩ := bind_eq_some_iff.mp hr
    exact ⟨(decode_encode hleno ho).1, (decode_encode hlena ha).1⟩
  · rintro ⟨hplaino, hplaina⟩
    obtain ⟨m, hm⟩ := (decodes_encode hleno).mpr hplaino
    obtain ⟨n, hn⟩ := (decodes_encode hlena).mpr hplaina
    have hm : decodeObjectPathPart (m + n) _ = _ := decodeLoop_le (Nat.le_add_right m n) hm
    have hn : decodeObjectPathPart (m + n) _ = _ := decodeLoop_le (Nat.le_add_left n m) hn
    have hne : asciiBytes u.accountId ≠ asciiBytes u.ownerAccountId := fun heq => howner (by
      rw [UserId.IsOwner, ← byteChars_asciiBytes ha, heq, byteChars_asciiBytes ho])
    refine ⟨m + n, ?_⟩
    rw [objectPathToUserId_contact plugins hknown (m + n) (slash_notMem_encode _)
      (slash_notMem_encode _) h, hm, hn, bind_some, bind_some, if_neg hne,
      byteChars_asciiBytes ha, byteChars_asciiBytes ho]
    exact congrArg some (UserId.user_eq rfl u.owner_normal.symm)

end UserIds

/-- **The accounts in object paths.**  An account is decoded from what it is encoded as, unless it is
two letters or digits; what it is encoded as has letters, digits and underscores only; a user id of a
known protocol is read back from its path, unless its account or that of its owner is two letters or
digits; decoding ends, without a look outside the string, unless this is two characters long or a lone
underscore. -/
theorem objectPath_iff (plugins : List ProtocolPlugin) {id s : List UInt8} {u : UserId}
    (hid : (encodeObjectPathPart id).length < 2 ^ 63)
    (hknown : u.protocolId ∈ [icqPpid, msnPpid, jabberPpid])
    (ho : Bytes u.ownerAccountId) (ha : Bytes u.accountId)
    (hpath : (userIdToObjectPath u).length < 2 ^ 63) (hs : s.length < 2 ^ 63) :
    (Decodes (encodeObjectPathPart id) id ↔ ¬ TwoPlain id) ∧
    (∀ c ∈ encodeObjectPathPart id, c ∈ allowedChars ∨ c = escape) ∧
    ((∃ rounds, objectPathToUserId plugins rounds (userIdToObjectPath u) = some u) ↔
      ¬ TwoPlainAccount u.ownerAccountId ∧ ¬ TwoPlainAccount u.accountId) ∧
    ((∃ r, Decodes s r) ↔ s.length ≠ 2 ∧ s ≠ [escape]) := by
  refine ⟨decodes_encode hid, fun c => mem_encode, ?_, ?_⟩
  · by_cases howner : u.IsOwner
    · rw [objectPathToUserId_iff_of_owner plugins hknown ha hpath howner, ← howner, and_self]
    · exact objectPathToUserId_iff_of_not_owner plugins hknown ha hpath howner ho
  · constructor
    · rintro ⟨r, hr⟩
      obtain ⟨hne2, hne, -⟩ := (decodes_iff hs).mp hr
      exact ⟨hne2, hne⟩
    · rintro ⟨hne2, hne⟩
      exact ⟨_, decodes_unescape hs hne2 hne⟩

/-- An account of three letters. -/
theorem objectPath_iff_bob : Decodes (encodeObjectPathPart (asciiBytes ['b', 'o', 'b']))
      (asciiBytes ['b', 'o', 'b']) ∧
    ∃ rounds, objectPathToUserId [] rounds
      (userIdToObjectPath (UserId.owner jabberPpid ['b', 'o', 'b'])) =
        some (UserId.owner jabberPpid ['b', 'o', 'b']) := by
  have hbytes : Bytes ['b', 'o', 'b'] := by simp [Bytes]
  have hall := @objectPath_iff [] (asciiBytes ['b', 'o', 'b']) []
    (UserId.owner jabberPpid ['b', 'o', 'b']) (by decide) (by decide) hbytes hbytes (by decide)
    (by decide)
  exact ⟨hall.1.mpr (by decide), hall.2.2.1.mpr (by decide)⟩

/-- **The account `ab` is not decoded**, however many rounds the loop takes. -/
theorem not_decodes_ab : ¬ ∀ id : List UInt8, Decodes (encodeObjectPathPart id) id := by
  intro h
  obtain ⟨rounds, hr⟩ := h (asciiBytes ['a', 'b'])
  rw [decodeObjectPathPart, decodeLoop_two (by decide)] at hr
  cases hr

end Licq.Dbus
