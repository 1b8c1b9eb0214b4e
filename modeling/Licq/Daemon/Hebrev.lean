import Mathlib.Data.List.Forall2
import Mathlib.Data.List.TakeWhile

/-!
# Daemon/Hebrev — reversing Hebrew text

`strhebpatch` copies a line and turns around the stretches from a Hebrew letter on: from the end of
a stretch to its start, with the numbers in it left as they are and the brackets looking the other
way.  `hebrev` does so with each line of a text, which it takes apart with `strtok_r`.

The **main result** `hebrev_keeps_iff` says that a line always comes back with the same characters,
and when a text comes back with the same lines.
-/

namespace Licq.Hebrev

open List Option

/-! ## The code -/

def iswhitespace (ch : UInt8) : Bool := ch == 0x20 || ch == 8

def isheb (ch : UInt8) : Bool := 0xE0 ≤ ch && ch ≤ 0xFA

def iseng (ch : UInt8) : Bool := (0x41 ≤ ch && ch ≤ 0x5A) || (0x61 ≤ ch && ch ≤ 0x7A)

def isdigit (ch : UInt8) : Bool := 0x30 ≤ ch && ch ≤ 0x39

/-- The bracket that looks the other way. -/
def mirror (ch : UInt8) : UInt8 :=
  match ch with
  | 0x28 => 0x29
  | 0x29 => 0x28
  | 0x7B => 0x7D
  | 0x7D => 0x7B
  | 0x5B => 0x5D
  | 0x5D => 0x5B
  | ch => ch

/-- A character of the string or its terminator; none outside. -/
def charAt (src : List UInt8) (i : ℕ) : Option UInt8 := (src ++ [0])[i]?

section

variable (ispunct : UInt8 → Bool) (src : List UInt8)

/-- The loop back to the last letter or punctuation mark. -/
def lastMark : ℕ → Option ℕ
  | 0 => some 0
  | lmark + 1 => do
    let ch ← charAt src (lmark + 1)
    if !isheb ch && !ispunct ch then lastMark lmark else some (lmark + 1)

/-- The loop that copies a number, with the count of the characters that are left. -/
def copyNumber : ℕ → ℕ → Option (List UInt8)
  | 0, _ => some []
  | left + 1, nlmark => do
    let ch ← charAt src nlmark
    let rest ← copyNumber left (nlmark + 1)
    some (ch :: rest)

/-- The loop back to the start of the stretch: `k` is one more than `lmark`, and `nmark` is there in
a number, where `imode` is 1. -/
def turn (hmark k : ℕ) (nmark : Option ℕ) : Option (List UInt8) :=
  if hmark < k then do
    let ch ← charAt src (k - 1)
    match nmark with
    | none =>
      if isdigit (mirror ch) then turn hmark (k - 1) (some (k - 1))
      else
        let rest ← turn hmark (k - 1) none
        some (mirror ch :: rest)
    | some nmark =>
      if isheb ch || iswhitespace ch || ispunct ch then
        let number ← copyNumber src (nmark + 1 - k) k
        -- The same character once more, out of the number.
        let rest ← turn hmark k none
        some (number ++ rest)
      else turn hmark (k - 1) (some nmark)
  else some []
termination_by 2 * k + nmark.toList.length
decreasing_by
  all_goals
    simp only [Option.toList_none, Option.toList_some, List.length_nil, List.length_singleton]
    omega

/-- The loop over the characters, with the steps counted: `hmark` is there in a stretch, where
`mode` is 1.  The result is what is written to `dest`, the terminator included. -/
def patch : ℕ → Option ℕ → ℕ → Option (List UInt8)
  | 0, _, _ => none
  | fuel + 1, none, pos => do
    let ch ← charAt src pos
    if isheb ch then patch fuel (some pos) (pos + 1)
    else if ch = 0 then some [0]
    else
      let rest ← patch fuel none (pos + 1)
      some (ch :: rest)
  | fuel + 1, some hmark, pos => do
    let ch ← charAt src pos
    if ch = 0 || iseng ch then
      -- The character in front of the first one.
      if pos = 0 then none
      else
        let lmark ← lastMark ispunct src (pos - 1)
        let turned ← turn ispunct src hmark (lmark + 1) none
        let ch ← charAt src lmark
        if ch = 0 then some (turned ++ [0])
        else
          let rest ← patch fuel none (lmark + 1)
          some (turned ++ rest)
    else patch fuel (some hmark) (pos + 1)

/-- What is written to `dest`. -/
def strhebpatch : Option (List UInt8) :=
  patch ispunct src ((src.length + 2) * (src.length + 1)) none 0

/-- The new string; none when more is written than there is room for. -/
def hebrew : Option (List UInt8) := do
  let written ← strhebpatch ispunct src
  if written.length ≤ src.length + 1 then some (written.takeWhile (· ≠ 0)) else none

end

/-- `strtok_r` with a line break: the next token and what is behind it. -/
def strtok (s : List UInt8) : Option (List UInt8 × List UInt8) :=
  match s.dropWhile (· = 10) with
  | [] => none
  | c :: s =>
    let arg := (c :: s).takeWhile (· ≠ 10)
    some (arg, (c :: s).drop (arg.length + 1))

def getArg (input : List UInt8) : ℕ → Option (List UInt8)
  | 0 => (strtok input).map Prod.fst
  | index + 1 => do
    let r ← strtok input
    getArg r.2 index

section

variable (ispunct : UInt8 → Bool) (src : List UInt8)

/-- The loop over the lines from the `i`-th on, with the steps counted, and what has been put to
`temp_str`. -/
def joinFrom : ℕ → ℕ → List UInt8 → Option (List UInt8)
  | 0, _, _ => none
  | fuel + 1, i, tempStr =>
    match getArg src i with
    | none => some tempStr
    | some arg => do
      let temp ← hebrew ispunct arg
      let tempStr := tempStr ++ temp ++ [10]
      if tempStr.length ≤ src.length + 1 then joinFrom fuel (i + 1) tempStr else none

/-- The new text; none when it is written to outside of its memory.  The last line break is
overwritten by the terminator. -/
def hebrev : Option (List UInt8) := do
  let tempStr ← joinFrom ispunct src (src.length + 2) 0 []
  if tempStr.length = 0 then none else some tempStr.dropLast

end

/-! ## What is said -/

/-- The same character, or the bracket that looks the other way. -/
def Mirrored (a b : UInt8) : Prop := b = a ∨ b = mirror a

/-- **The same characters in another order**, up to the brackets. -/
def Rearranges (s out : List UInt8) : Prop := ∃ l, l.Perm s ∧ List.Forall₂ Mirrored l out

/-- **A line comes back**: the code ends, with as many characters and the same ones. -/
structure Patched (ispunct : UInt8 → Bool) (line out : List UInt8) : Prop where
  written : strhebpatch ispunct line = some (out ++ [0])
  length : out.length = line.length
  rearranges : Rearranges line out

/-- **The lines of a text come back**, each in its place. -/
def KeepsLines (ispunct : UInt8 → Bool) (src : List UInt8) : Prop :=
  ∃ outs, hebrev ispunct src = some (List.intercalate [10] outs) ∧
    List.Forall₂ (Patched ispunct) (src.splitOn 10) outs

/-! ## Rearranging -/

section Rearranges

variable {s t out out' : List UInt8} {c : UInt8}

theorem Rearranges.length_eq (h : Rearranges s out) : out.length = s.length := by
  obtain ⟨l, hperm, hmirrored⟩ := h
  rw [← hmirrored.length_eq, hperm.length_eq]

theorem rearranges_nil : Rearranges [] [] := ⟨[], List.Perm.refl _, List.Forall₂.nil⟩

theorem rearranges_refl (s : List UInt8) : Rearranges s s :=
  ⟨s, List.Perm.refl s, forall₂_same.mpr fun _ _ => Or.inl rfl⟩

theorem rearranges_mirror (c : UInt8) : Rearranges [c] [mirror c] :=
  ⟨[c], List.Perm.refl _, List.Forall₂.cons (Or.inr rfl) List.Forall₂.nil⟩

theorem Rearranges.append (h : Rearranges s out) (h' : Rearranges t out') :
    Rearranges (s ++ t) (out ++ out') := by
  obtain ⟨l, hperm, hmirrored⟩ := h
  obtain ⟨l', hperm', hmirrored'⟩ := h'
  exact ⟨l ++ l', hperm.append hperm', rel_append hmirrored hmirrored'⟩

/-- **Two parts may change places.** -/
theorem Rearranges.swap (h : Rearranges s out) (h' : Rearranges t out') :
    Rearranges (s ++ t) (out' ++ out) := by
  obtain ⟨l, hperm, hmirrored⟩ := h'.append h
  exact ⟨l, hperm.trans perm_append_comm, hmirrored⟩

/-- A character that is no bracket does not come in. -/
theorem Rearranges.notMem (h : Rearranges s out) (hs : c ∉ s) (hc : ∀ a, mirror a = c → a = c) :
    c ∉ out := by
  obtain ⟨l, hperm, hmirrored⟩ := h
  have hl : c ∉ l := fun hmem => hs (hperm.subset hmem)
  clear hperm
  induction hmirrored with
  | nil => exact not_mem_nil
  | @cons a b l out hab hrest ih =>
    rw [mem_cons, not_or] at hl ⊢
    refine ⟨fun hb => ?_, ih hl.2⟩
    rcases hab with rfl | rfl
    · exact hl.1 hb
    · exact hl.1 (hc a hb.symm).symm

end Rearranges

/-! ## Stretches of the string -/

/-- The characters from one position up to another. -/
def stretch (src : List UInt8) (a b : ℕ) : List UInt8 := (src.drop a).take (b - a)

section Stretch

variable {src : List UInt8} {a b k : ℕ}

theorem stretch_self (src : List UInt8) (a : ℕ) : stretch src a a = [] := by
  rw [stretch, Nat.sub_self, take_zero]

theorem stretch_append_drop (h : a ≤ b) : stretch src a b ++ src.drop b = src.drop a := by
  have hdrop : src.drop b = (src.drop a).drop (b - a) := by
    rw [drop_drop, Nat.add_sub_cancel' h]
  rw [stretch, hdrop, take_append_drop]

theorem stretch_append_stretch (h : a ≤ k) (h' : k ≤ b) :
    stretch src a k ++ stretch src k b = stretch src a b := by
  have hlength : b - a = (k - a) + (b - k) := by omega
  rw [stretch, stretch, stretch, hlength, take_add, drop_drop, Nat.add_sub_cancel' h]

theorem stretch_succ (h : a ≤ k) (hk : k < src.length) :
    stretch src a (k + 1) = stretch src a k ++ [src[k]] := by
  rw [← stretch_append_stretch h (Nat.le_succ k), stretch, stretch, Nat.succ_sub (Nat.le_refl k),
    Nat.sub_self, drop_eq_getElem_cons hk, take_succ_cons, take_zero]

theorem charAt_of_lt {i : ℕ} (h : i < src.length) : charAt src i = some src[i] := by
  rw [charAt, getElem?_append_left h, getElem?_eq_getElem h]

theorem charAt_length (src : List UInt8) : charAt src src.length = some 0 := by
  rw [charAt, getElem?_append_right (Nat.le_refl _), Nat.sub_self]
  rfl

theorem copyNumber_eq {left nlmark : ℕ} (h : nlmark + left ≤ src.length) :
    copyNumber src left nlmark = some ((src.drop nlmark).take left) := by
  induction left generalizing nlmark with
  | zero => rfl
  | succ left ih =>
    have hlt : nlmark < src.length := by omega
    rw [copyNumber, charAt_of_lt hlt, ih (by omega), drop_eq_getElem_cons hlt,
      take_succ_cons]
    rfl

end Stretch

/-! ## Turning a stretch around -/

section Turn

variable (ispunct : UInt8 → Bool) {src : List UInt8} {hmark : ℕ}

theorem not_isheb_of_isdigit {ch : UInt8} (h : isdigit ch = true) : isheb ch = false := by
  simp only [isdigit, isheb, Bool.and_eq_true, decide_eq_true_eq, Bool.and_eq_false_iff,
    decide_eq_false_iff_not, UInt8.le_iff_toNat_le] at h ⊢
  have hlow : (0xE0 : UInt8).toNat = 224 := rfl
  have hhigh : (0x39 : UInt8).toNat = 57 := rfl
  omega

theorem mirror_eq_self_of_isdigit {ch : UInt8} (h : isdigit (mirror ch) = true) :
    mirror ch = ch := by
  unfold mirror at h ⊢
  split at h
  all_goals first | rfl | exact absurd h (by decide)

/-- **A stretch that starts with a Hebrew letter is turned around**, within the string; so is one
that ends in a number whose last digits have been passed over. -/
theorem turn_spec (hheb : ∀ h : hmark < src.length, isheb src[hmark] = true) (k : ℕ) :
    (hmark ≤ k → k ≤ src.length → ∃ out, turn ispunct src hmark k none = some out ∧
      Rearranges (stretch src hmark k) out) ∧
    ∀ nmark, hmark < k → k ≤ nmark → nmark < src.length →
      ∃ out, turn ispunct src hmark k (some nmark) = some out ∧
        Rearranges (stretch src hmark (nmark + 1)) out := by
  induction k with
  | zero =>
    refine ⟨fun hle _ => ⟨[], ?_, ?_⟩, fun _ h => absurd h (Nat.not_lt_zero _)⟩
    · rw [turn, if_neg (Nat.not_lt_zero _)]
    · obtain rfl := Nat.le_zero.mp hle
      rw [stretch_self]
      exact rearranges_nil
  | succ k ih =>
    have hnone : hmark ≤ k + 1 → k + 1 ≤ src.length →
        ∃ out, turn ispunct src hmark (k + 1) none = some out ∧
          Rearranges (stretch src hmark (k + 1)) out := by
      intro hle hlen
      rcases Nat.eq_or_lt_of_le hle with rfl | hlt
      · refine ⟨[], ?_, ?_⟩
        · rw [turn, if_neg (Nat.lt_irrefl _)]
        · rw [stretch_self]
          exact rearranges_nil
      · have hk : k < src.length := hlen
        rw [turn, if_pos hlt, Nat.add_sub_cancel, charAt_of_lt hk]
        by_cases hdigit : isdigit (mirror src[k]) = true
        · -- The number starts here; the letter at the start of the stretch is none.
          have hself := mirror_eq_self_of_isdigit hdigit
          have hne : hmark ≠ k := by
            rintro rfl
            rw [hself] at hdigit
            exact absurd (hheb hk) (by rw [not_isheb_of_isdigit hdigit]; decide)
          simp only [bind_eq_bind, bind_some, if_pos hdigit]
          exact ih.2 k (by omega) (Nat.le_refl k) hk
        · obtain ⟨out, hturn, hout⟩ := ih.1 (by omega) (by omega)
          refine ⟨mirror src[k] :: out, ?_, ?_⟩
          · simp only [bind_eq_bind, bind_some, if_neg hdigit, hturn]
          · rw [stretch_succ (by omega) hk]
            exact hout.swap (rearranges_mirror _)
    refine ⟨hnone, fun nmark hlt hle hlen => ?_⟩
    have hk : k < src.length := by omega
    rw [turn, if_pos hlt, Nat.add_sub_cancel, charAt_of_lt hk]
    by_cases hend : (isheb src[k] || iswhitespace src[k] || ispunct src[k]) = true
    · obtain ⟨out, hturn, hout⟩ := hnone (by omega) (by omega)
      refine ⟨stretch src (k + 1) (nmark + 1) ++ out, ?_, ?_⟩
      · simp only [bind_eq_bind, bind_some, if_pos hend, hturn,
          copyNumber_eq (show k + 1 + (nmark + 1 - (k + 1)) ≤ src.length by omega)]
        rfl
      · rw [← stretch_append_stretch (show hmark ≤ k + 1 by omega)
          (show k + 1 ≤ nmark + 1 by omega)]
        exact hout.swap (rearranges_refl _)
    · have hne : hmark ≠ k := by
        rintro rfl
        rw [hheb hk] at hend
        exact hend rfl
      simp only [bind_eq_bind, bind_some, if_neg hend]
      exact ih.2 nmark (by omega) (by omega) hlen

/-- The end of the stretch is not in front of its start. -/
theorem lastMark_spec (hlt : hmark < src.length) (hheb : isheb src[hmark] = true) {p : ℕ}
    (hle : hmark ≤ p) (hp : p < src.length) :
    ∃ lmark, lastMark ispunct src p = some lmark ∧ hmark ≤ lmark ∧ lmark ≤ p := by
  induction p with
  | zero => exact ⟨0, rfl, hle, Nat.le_refl 0⟩
  | succ p ih =>
    rw [lastMark, charAt_of_lt hp]
    by_cases hback : (!isheb src[p + 1] && !ispunct src[p + 1]) = true
    · have hne : hmark ≠ p + 1 := by
        rintro rfl
        rw [hheb] at hback
        exact absurd hback (by simp)
      obtain ⟨lmark, hlast, hlow, hhigh⟩ := ih (by omega) (by omega)
      refine ⟨lmark, ?_, hlow, Nat.le_succ_of_le hhigh⟩
      simp only [bind_eq_bind, bind_some, if_pos hback, hlast]
    · refine ⟨p + 1, ?_, hle, Nat.le_refl _⟩
      simp only [bind_eq_bind, bind_some, if_neg hback]

end Turn

/-! ## A line -/

section Patch

variable (ispunct : UInt8 → Bool) {src : List UInt8}

/-- **The search for the end of a stretch** takes a step for each character, and ends. -/
theorem patch_search (hmark : ℕ) {pos : ℕ} (hpos : pos ≤ src.length) :
    ∃ stop, pos ≤ stop ∧ stop ≤ src.length ∧
      (∃ ch, charAt src stop = some ch ∧ (ch = 0 || iseng ch) = true) ∧
      ∀ fuel, patch ispunct src (fuel + (stop - pos)) (some hmark) pos
        = patch ispunct src fuel (some hmark) stop := by
  induction hleft : src.length - pos generalizing pos with
  | zero =>
    obtain rfl : pos = src.length := by omega
    exact ⟨src.length, Nat.le_refl _, Nat.le_refl _, ⟨0, charAt_length src, by decide⟩,
      fun fuel => by rw [Nat.sub_self, Nat.add_zero]⟩
  | succ left ih =>
    have hlt : pos < src.length := by omega
    by_cases hend : (decide (src[pos] = 0) || iseng src[pos]) = true
    · exact ⟨pos, Nat.le_refl _, hpos, ⟨_, charAt_of_lt hlt, hend⟩,
        fun fuel => by rw [Nat.sub_self, Nat.add_zero]⟩
    · obtain ⟨stop, hle, hstop, hch, hrun⟩ := ih (show pos + 1 ≤ src.length by omega) (by omega)
      refine ⟨stop, by omega, hstop, hch, fun fuel => ?_⟩
      have hsteps : fuel + (stop - pos) = fuel + (stop - (pos + 1)) + 1 := by omega
      rw [hsteps, patch, charAt_of_lt hlt]
      simp only [bind_eq_bind, bind_some, if_neg hend]
      exact hrun fuel

/-- **From any character on the line comes back**, given enough steps. -/
theorem patch_spec (hnul : (0 : UInt8) ∉ src) {pos : ℕ} (hpos : pos ≤ src.length) :
    ∃ out, Rearranges (src.drop pos) out ∧
      ∀ fuel, (src.length + 2) * (src.length + 1 - pos) ≤ fuel →
        patch ispunct src fuel none pos = some (out ++ [0]) := by
  induction hleft : src.length - pos using Nat.strongRecOn generalizing pos with
  | ind left ih =>
    subst hleft
    rcases Nat.eq_or_lt_of_le hpos with rfl | hlt
    · refine ⟨[], ?_, fun fuel hfuel => ?_⟩
      · rw [drop_length]
        exact rearranges_nil
      · obtain ⟨fuel, rfl⟩ : ∃ m, fuel = m + 1 := ⟨fuel - 1, by
          rw [Nat.add_sub_cancel_left] at hfuel
          omega⟩
        rw [patch, charAt_length]
        rfl
    · have hsplit : (src.length + 2) * (src.length + 1 - pos)
          = (src.length + 2) * (src.length - pos) + (src.length + 2) := by
        rw [Nat.succ_sub hpos, Nat.mul_succ]
      by_cases hheb : isheb src[pos] = true
      · obtain ⟨stop, hle, hstop, ⟨ch, hch, hend⟩, hsearch⟩ :=
          patch_search ispunct pos (show pos + 1 ≤ src.length from hlt)
        obtain ⟨lmark, hlast, hlow, hhigh⟩ := lastMark_spec ispunct hlt hheb
          (show pos ≤ stop - 1 by omega) (by omega)
        have hlmark : lmark < src.length := by omega
        obtain ⟨turned, hturn, hturned⟩ := (turn_spec ispunct (fun _ => hheb)
          (lmark + 1)).1 (by omega) hlmark
        obtain ⟨out, hout, hrun⟩ := ih (src.length - (lmark + 1)) (by omega)
          (show lmark + 1 ≤ src.length from hlmark) rfl
        refine ⟨turned ++ out, ?_, fun fuel hfuel => ?_⟩
        · rw [← stretch_append_drop (show pos ≤ lmark + 1 by omega)]
          exact hturned.append hout
        · -- One step to the letter, those to the end of the stretch, and one to turn it around.
          obtain ⟨fuel, rfl⟩ : ∃ m, fuel = m + 1 + (stop - (pos + 1)) + 1 :=
            ⟨fuel - 2 - (stop - (pos + 1)), by omega⟩
          have hmono : (src.length + 2) * (src.length - lmark)
              ≤ (src.length + 2) * (src.length - pos) :=
            Nat.mul_le_mul_left _ (by omega)
          have hrest := hrun fuel (by rw [Nat.add_sub_add_right]; omega)
          have hne : src[lmark] ≠ 0 := fun h => hnul (h ▸ getElem_mem hlmark)
          rw [patch, charAt_of_lt hlt]
          simp only [bind_eq_bind, bind_some, if_pos hheb]
          rw [hsearch, patch, hch]
          simp only [bind_eq_bind, bind_some, if_pos hend,
            if_neg (show stop ≠ 0 by omega), hlast, hturn, charAt_of_lt hlmark, if_neg hne, hrest,
            append_assoc]
      · obtain ⟨out, hout, hrun⟩ := ih (src.length - (pos + 1)) (by omega)
          (show pos + 1 ≤ src.length from hlt) rfl
        refine ⟨src[pos] :: out, ?_, fun fuel hfuel => ?_⟩
        · rw [drop_eq_getElem_cons hlt]
          exact (rearranges_refl [src[pos]]).append hout
        · obtain ⟨fuel, rfl⟩ : ∃ m, fuel = m + 1 := ⟨fuel - 1, by omega⟩
          have hne : src[pos] ≠ 0 := fun h => hnul (h ▸ getElem_mem hlt)
          have hrest := hrun fuel (by rw [Nat.add_sub_add_right]; omega)
          rw [patch, charAt_of_lt hlt]
          simp only [bind_eq_bind, bind_some, if_neg hheb, if_neg hne, hrest]
          rfl

/-- **A line always comes back.** -/
theorem exists_patched (hnul : (0 : UInt8) ∉ src) :
    ∃ out, Patched ispunct src out := by
  obtain ⟨out, hout, hrun⟩ := patch_spec ispunct hnul (Nat.zero_le src.length)
  exact ⟨out, hrun _ (Nat.le_refl _), hout.length_eq, hout⟩

theorem zero_of_mirror_eq_zero {a : UInt8} (h : mirror a = 0) : a = 0 := by
  unfold mirror at h
  split at h
  all_goals first | exact h | exact absurd h (by decide)

theorem nl_of_mirror_eq_nl {a : UInt8} (h : mirror a = 10) : a = 10 := by
  unfold mirror at h
  split at h
  all_goals first | exact h | exact absurd h (by decide)

variable {ispunct} in
/-- **The new string is the line's**, within its memory. -/
theorem Patched.hebrew_eq {out : List UInt8} (h : Patched ispunct src out)
    (hnul : (0 : UInt8) ∉ src) : hebrew ispunct src = some out := by
  have hout : (0 : UInt8) ∉ out := h.rearranges.notMem hnul fun _ => zero_of_mirror_eq_zero
  have hlength : (out ++ [0]).length ≤ src.length + 1 := by
    rw [length_append, h.length, length_singleton]
  have hall : ∀ c ∈ out, decide (c ≠ 0) = true :=
    fun c hc => decide_eq_true fun hzero => hout (hzero ▸ hc)
  rw [hebrew, h.written, bind_eq_bind, bind_some, if_pos hlength,
    takeWhile_append_of_pos hall]
  exact congrArg some (append_nil out)

end Patch

/-! ## The tokens of a text -/

section Tokens

variable {s arg rest : List UInt8}

/-- The lines that are not empty. -/
def pieces (s : List UInt8) : List (List UInt8) := (s.splitOn 10).filter (· ≠ [])

theorem pieces_nl (s : List UInt8) : pieces (10 :: s) = pieces s := by
  have hsplit : (10 :: s).splitOn (10 : UInt8) = [] :: s.splitOn 10 :=
    splitOn_append_cons_self_of_not_mem not_mem_nil s
  rw [pieces, hsplit, filter_cons_of_neg (by simp), pieces]

theorem pieces_append (hne : arg ≠ []) (hnl : (10 : UInt8) ∉ arg) (s : List UInt8) :
    pieces (arg ++ 10 :: s) = arg :: pieces s := by
  rw [pieces, splitOn_append_cons_self_of_not_mem hnl, filter_cons_of_pos (by simpa),
    pieces]

theorem pieces_last (hne : arg ≠ []) (hnl : (10 : UInt8) ∉ arg) : pieces arg = [arg] := by
  rw [pieces, splitOn_eq_singleton hnl, filter_cons_of_pos (by simpa), filter_nil]

theorem pieces_dropWhile (s : List UInt8) : pieces (s.dropWhile (· = 10)) = pieces s := by
  induction s with
  | nil => rfl
  | cons c s ih =>
    by_cases hc : c = 10
    · rw [dropWhile_cons_of_pos (by simpa), ih, hc, pieces_nl]
    · rw [dropWhile_cons_of_neg (by simpa)]

/-- **`strtok_r` gives the lines that are not empty.** -/
theorem pieces_eq (s : List UInt8) : pieces s =
    match strtok s with
    | none => []
    | some (arg, rest) => arg :: pieces rest := by
  rw [← pieces_dropWhile, strtok]
  cases hskip : s.dropWhile (· = 10) with
  | nil => rfl
  | cons c t =>
    have hc : c ≠ 10 := by
      have hhead := head_dropWhile_not (fun b : UInt8 => decide (b = 10))
        (hskip ▸ cons_ne_nil c t : s.dropWhile (· = 10) ≠ [])
      simpa [hskip] using hhead
    simp only
    have hne : (c :: t).takeWhile (· ≠ 10) ≠ [] := by
      rw [takeWhile_cons_of_pos (by simpa)]
      exact cons_ne_nil _ _
    have hnl : (10 : UInt8) ∉ (c :: t).takeWhile (· ≠ 10) := fun hmem => by
      simpa using mem_takeWhile_imp hmem
    have hparts := takeWhile_append_dropWhile (p := (· ≠ (10 : UInt8))) (l := c :: t)
    cases hrest : (c :: t).dropWhile (· ≠ 10) with
    | nil =>
      rw [hrest, append_nil] at hparts
      rw [hparts] at hne hnl ⊢
      rw [pieces_last hne hnl, drop_eq_nil_of_le (Nat.le_succ _)]
      rfl
    | cons d r =>
      obtain rfl : d = 10 := by
        have hhead := head_dropWhile_not (fun b : UInt8 => decide (b ≠ 10))
          (hrest ▸ cons_ne_nil d r : (c :: t).dropWhile (· ≠ 10) ≠ [])
        simpa only [hrest, head_cons, decide_eq_false_iff_not, not_not] using hhead
      rw [hrest] at hparts
      generalize (c :: t).takeWhile (· ≠ 10) = arg at hne hnl hparts
      rw [← hparts, pieces_append hne hnl, ← drop_drop, drop_left]
      rfl

theorem getArg_eq (s : List UInt8) (index : ℕ) : getArg s index = (pieces s)[index]? := by
  induction index generalizing s with
  | zero =>
    rw [getArg, pieces_eq s]
    cases strtok s with
    | none => rfl
    | some r => rfl
  | succ index ih =>
    rw [getArg, pieces_eq s]
    cases strtok s with
    | none => rfl
    | some r => exact ih r.2

/-- A text is its last line, or a line and the rest of the text. -/
theorem lines_induction {P : List UInt8 → Prop} (hlast : ∀ line, (10 : UInt8) ∉ line → P line)
    (hline : ∀ line s, (10 : UInt8) ∉ line → P s → P (line ++ 10 :: s)) (s : List UInt8) : P s := by
  induction hlength : s.length using Nat.strongRecOn generalizing s with
  | ind n ih =>
    by_cases hmem : (10 : UInt8) ∈ s
    · obtain ⟨line, t, rfl, hnl⟩ := eq_append_cons_of_mem hmem
      refine hline line t hnl (ih t.length ?_ t rfl)
      rw [← hlength, length_append, length_cons]
      omega
    · exact hlast s hmem

/-- The lines of a text have its characters, and no line breaks. -/
theorem mem_of_mem_splitOn (s : List UInt8) :
    ∀ line ∈ s.splitOn 10, (10 : UInt8) ∉ line ∧ ∀ c ∈ line, c ∈ s := by
  induction s using lines_induction with
  | hlast line hnl =>
    rw [splitOn_eq_singleton hnl]
    intro l hl
    obtain rfl := mem_singleton.mp hl
    exact ⟨hnl, fun _ hc => hc⟩
  | hline line s hnl ih =>
    rw [splitOn_append_cons_self_of_not_mem hnl]
    intro l hl
    rcases mem_cons.mp hl with rfl | hl
    · exact ⟨hnl, fun _ hc => mem_append_left _ hc⟩
    · obtain ⟨hlnl, hmem⟩ := ih l hl
      exact ⟨hlnl, fun c hc => mem_append_right _ (mem_cons_of_mem _ (hmem c hc))⟩

/-- The lines that are not empty fit where the text does. -/
theorem length_pieces_le (s : List UInt8) :
    ((pieces s).flatMap (· ++ [10])).length ≤ s.length + 1 := by
  induction s using lines_induction with
  | hlast line hnl =>
    by_cases hne : line = []
    · rw [hne]
      exact Nat.zero_le _
    · rw [pieces_last hne hnl, flatMap_singleton, length_append, length_singleton]
  | hline line s hnl ih =>
    by_cases hne : line = []
    · rw [hne, nil_append, pieces_nl, length_cons]
      exact Nat.le_succ_of_le ih
    · rw [pieces_append hne hnl, flatMap_cons]
      simp only [length_append, length_cons, length_nil]
      omega

end Tokens

/-! ## A text -/

section Text

variable {ispunct : UInt8 → Bool} {src : List UInt8} {outs : List (List UInt8)}

theorem flatMap_eq_intercalate (h : outs ≠ []) :
    outs.flatMap (· ++ [10]) = List.intercalate [10] outs ++ [10] := by
  induction outs with
  | nil => exact absurd rfl h
  | cons out outs ih =>
    rw [flatMap_cons]
    cases outs with
    | nil => rw [flatMap_nil, append_nil, intercalate_singleton]
    | cons out' outs =>
      rw [ih (cons_ne_nil _ _), intercalate_cons_cons, append_assoc,
        append_assoc, append_assoc]

/-- **The loop over the lines** puts the new ones to what is there, each with a line break. -/
theorem joinFrom_eq {ps : List (List UInt8)} (houts : List.Forall₂ (Patched ispunct) ps outs)
    (hnul : ∀ p ∈ ps, (0 : UInt8) ∉ p) {i : ℕ} (hps : (pieces src).drop i = ps) {fuel : ℕ}
    (hfuel : ps.length < fuel) {tempStr : List UInt8}
    (hroom : tempStr.length + (ps.flatMap (· ++ [10])).length ≤ src.length + 1) :
    joinFrom ispunct src fuel i tempStr = some (tempStr ++ outs.flatMap (· ++ [10])) := by
  induction houts generalizing i fuel tempStr with
  | nil =>
    obtain ⟨fuel, rfl⟩ : ∃ m, fuel = m + 1 := ⟨fuel - 1, by omega⟩
    have hnone : getArg src i = none := by
      rw [getArg_eq]
      exact getElem?_eq_none (drop_eq_nil_iff.mp hps)
    rw [joinFrom, hnone, flatMap_nil, append_nil]
  | @cons p out ps outs hpatched hrest ih =>
    obtain ⟨fuel, rfl⟩ : ∃ m, fuel = m + 1 := ⟨fuel - 1, by
      rw [length_cons] at hfuel
      omega⟩
    have hsome : getArg src i = some p := by
      rw [getArg_eq, ← head?_drop, hps, head?_cons]
    have hnext : (pieces src).drop (i + 1) = ps := by
      rw [← drop_drop, hps, drop_one, tail_cons]
    rw [flatMap_cons, length_append, length_append, length_singleton] at hroom
    have hlength : (tempStr ++ out ++ [10]).length = tempStr.length + p.length + 1 := by
      rw [length_append, length_append, length_singleton, hpatched.length]
    rw [joinFrom, hsome]
    simp only [hpatched.hebrew_eq (hnul p mem_cons_self), bind_eq_bind,
      bind_some]
    rw [if_pos (by omega), ih (fun q hq => hnul q (mem_cons_of_mem p hq)) hnext
      (by rw [length_cons] at hfuel; omega) (by omega), flatMap_cons, append_assoc,
      append_assoc, append_assoc]

theorem exists_all_patched (ispunct : UInt8 → Bool) (ps : List (List UInt8))
    (hnul : ∀ p ∈ ps, (0 : UInt8) ∉ p) : ∃ outs, List.Forall₂ (Patched ispunct) ps outs := by
  induction ps with
  | nil => exact ⟨[], List.Forall₂.nil⟩
  | cons p ps ih =>
    obtain ⟨out, hout⟩ := exists_patched ispunct (hnul p mem_cons_self)
    obtain ⟨outs, houts⟩ := ih fun q hq => hnul q (mem_cons_of_mem p hq)
    exact ⟨out :: outs, List.Forall₂.cons hout houts⟩

theorem length_le_flatMap (ps : List (List UInt8)) :
    ps.length ≤ (ps.flatMap (· ++ [10])).length := by
  induction ps with
  | nil => exact Nat.le_refl 0
  | cons p ps ih =>
    rw [flatMap_cons]
    simp only [length_append, length_cons, length_nil]
    omega

/-- The new lines have no line breaks either. -/
theorem nl_notMem_of_patched {ps : List (List UInt8)}
    (houts : List.Forall₂ (Patched ispunct) ps outs) (hnl : ∀ p ∈ ps, (10 : UInt8) ∉ p) :
    ∀ out ∈ outs, (10 : UInt8) ∉ out := by
  induction houts with
  | nil => exact nofun
  | @cons p out ps outs hpatched hrest ih =>
    intro o ho
    rcases mem_cons.mp ho with rfl | ho
    · exact hpatched.rearranges.notMem (hnl p mem_cons_self) fun _ => nl_of_mirror_eq_nl
    · exact ih (fun q hq => hnl q (mem_cons_of_mem p hq)) o ho

/-- **The new text is the new lines of those that are not empty**; where there is none, the byte in
front of it is written. -/
theorem hebrev_eq (ispunct : UInt8 → Bool) (hnul : (0 : UInt8) ∉ src) :
    ∃ outs, List.Forall₂ (Patched ispunct) (pieces src) outs ∧
      hebrev ispunct src = if outs = [] then none else some (List.intercalate [10] outs) := by
  have hpieces : ∀ p ∈ pieces src, (0 : UInt8) ∉ p := fun p hp hzero =>
    hnul ((mem_of_mem_splitOn src p (mem_of_mem_filter hp)).2 0 hzero)
  obtain ⟨outs, houts⟩ := exists_all_patched ispunct (pieces src) hpieces
  have hlength := length_pieces_le src
  have hjoin : joinFrom ispunct src (src.length + 2) 0 [] = some (outs.flatMap (· ++ [10])) :=
    joinFrom_eq houts hpieces rfl
      (by have := length_le_flatMap (pieces src); omega) (by rwa [length_nil, Nat.zero_add])
  refine ⟨outs, houts, ?_⟩
  rw [hebrev, hjoin, bind_eq_bind, bind_some]
  by_cases hnone : outs = []
  · rw [if_pos hnone, hnone]
    rfl
  · rw [if_neg hnone, flatMap_eq_intercalate hnone, if_neg (by simp), dropLast_concat]

/-- **A line always comes back, and a text with its lines exactly if none of them is empty.** -/
theorem hebrev_keeps_iff (ispunct : UInt8 → Bool) (hnul : (0 : UInt8) ∉ src) :
    (∃ out, Patched ispunct src out) ∧ KeepsLines ispunct src ↔
      ∀ line ∈ src.splitOn 10, line ≠ [] := by
  rw [and_iff_right (exists_patched ispunct hnul)]
  obtain ⟨outs, houts, hresult⟩ := hebrev_eq ispunct hnul
  have hlines : ∀ line ∈ src.splitOn 10, (10 : UInt8) ∉ line := fun line hline =>
    (mem_of_mem_splitOn src line hline).1
  constructor
  · rintro ⟨outs', hkeeps, houts'⟩
    rw [hresult] at hkeeps
    split_ifs at hkeeps with hnone
    have hsplit := congrArg (List.splitOn 10) (Option.some.inj hkeeps)
    have hne' : outs' ≠ [] := by
      rintro rfl
      exact List.splitOn_ne_nil 10 src (List.forall₂_nil_right_iff.mp houts')
    rw [List.splitOn_intercalate 10 (nl_notMem_of_patched houts fun p hp =>
        hlines p (List.mem_of_mem_filter hp)) hnone,
      List.splitOn_intercalate 10 (nl_notMem_of_patched houts' hlines) hne'] at hsplit
    have hcount : (pieces src).length = (src.splitOn 10).length := by
      rw [houts.length_eq, houts'.length_eq, hsplit]
    have hall : pieces src = src.splitOn 10 := List.filter_sublist.eq_of_length hcount
    intro line hline
    rw [← hall] at hline
    exact of_decide_eq_true (List.mem_filter.mp hline).2
  · intro hall
    have hpieces : pieces src = src.splitOn 10 :=
      List.filter_eq_self.mpr fun line hline => decide_eq_true (hall line hline)
    rw [hpieces] at houts
    have hne : outs ≠ [] := by
      rintro rfl
      exact List.splitOn_ne_nil 10 src (List.forall₂_nil_right_iff.mp houts)
    rw [if_neg hne] at hresult
    exact ⟨outs, hresult, houts⟩

/-- The punctuation marks of ASCII. -/
def asciiPunct (ch : UInt8) : Bool :=
  (0x21 ≤ ch && ch ≤ 0x7E) && !isdigit ch && !iseng ch

/-- A line with a Hebrew word, a number and a bracket, and a second one. -/
theorem hebrev_keeps_two :
    (∃ out, Patched asciiPunct [0xE0, 0xE1, 0x20, 0x31, 0x32, 0x28, 0xE2, 10, 0x61] out) ∧
      KeepsLines asciiPunct [0xE0, 0xE1, 0x20, 0x31, 0x32, 0x28, 0xE2, 10, 0x61] :=
  (hebrev_keeps_iff asciiPunct (by decide)).mpr (by decide)

/-- **An empty line between two others is lost**, and a text of a line break alone is written to in
front of its memory. -/
theorem not_keepsLines_empty :
    ¬ KeepsLines asciiPunct [0x61, 10, 10, 0x62] ∧ hebrev asciiPunct [10] = none := by
  refine ⟨?_, by decide +kernel⟩
  rintro ⟨outs, hkeeps, houts⟩
  have hresult : hebrev asciiPunct [0x61, 10, 10, 0x62] = some [0x61, 10, 0x62] := by
    decide +kernel
  have hsplit : ([0x61, 10, 10, 0x62] : List UInt8).splitOn 10 = [[0x61], [], [0x62]] := by decide
  rw [hresult] at hkeeps
  rw [hsplit] at houts
  have hcount := congrArg List.length (congrArg (List.splitOn 10) (Option.some.inj hkeeps))
  rw [List.splitOn_intercalate 10 (nl_notMem_of_patched houts (by decide)) (by
    rintro rfl
    exact nomatch houts), ← houts.length_eq] at hcount
  exact absurd hcount (by decide)

end Text

end Licq.Hebrev
