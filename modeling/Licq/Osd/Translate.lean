import Licq.Data.File
import Mathlib.Algebra.Order.Group.Nat
import Mathlib.Data.List.TakeWhile
import Mathlib.Tactic.Tauto

/-!
# Osd/Translate — a message in the local encoding

`my_translate` converts a message with `iconv` into a buffer as large as the message, which it makes
larger each time the converted text does not fit.  Then it goes on at the end of the old buffer, not
behind what has been written, and counts the space that was left unused there once more; and it leaves
no room for the null byte in a buffer that has been made larger.

`Sound` follows the calls of `iconv`: the result is the whole conversion, or the message where it
cannot be converted, with no byte written outside of the buffer, exactly when every call that ran out
of space had filled the buffer, and the last one left room (`translates_iff`).
-/

open File (writeAt)

namespace Licq.Osd

open List

/-! ## Conversions -/

/-- A character of a message: how many bytes it takes, and what it is converted to. -/
structure Converted where
  consumed : ℕ
  output : List UInt8
  deriving DecidableEq

/-- What `iconv` makes of a message: its characters one after the other, and how many bytes behind
them cannot be converted. -/
structure Conversion where
  units : List Converted
  rest : ℕ

/-- The bytes of some characters of the message. -/
def inSize : List Converted → ℕ
  | [] => 0
  | u :: us => u.consumed + inSize us

def outputs (us : List Converted) : List UInt8 := us.flatMap Converted.output

/-- A conversion for each message; it goes through the message, and every character takes a byte at
least. -/
structure Iconv where
  convert : List UInt8 → Conversion
  size_eq : ∀ msg, inSize (convert msg).units + (convert msg).rest = msg.length
  consumed_pos : ∀ msg, ∀ u ∈ (convert msg).units, 0 < u.consumed

/-- A call of `iconv`: what is written into the space, as much as fits, and the characters left. -/
def fit : ℕ → List Converted → List UInt8 × List Converted
  | _, [] => ([], [])
  | space, u :: us =>
    if u.output.length ≤ space then
      let (out, left) := fit (space - u.output.length) us
      (u.output ++ out, left)
    else ([], u :: us)

/-! ## The encoding -/

/-- `strcasecmp` -/
def sameName (a b : List Char) : Bool := a.map Char.toLower == b.map Char.toLower

/-- The names of the encodings in Licq and in `iconv`. -/
def encodingNames : List (String × String) :=
  [("ISO 8859-1", "ISO-8859-1"), ("ISO 8859-2", "ISO-8859-2"), ("ISO 8859-3", "ISO-8859-3"),
    ("ISO 8859-5", "ISO-8859-5"), ("ISO 8859-6", "ISO-8859-6"), ("ISO 8859-7", "ISO-8859-7"),
    ("ISO 8859-8-I", "ISO-8859-8-I"), ("ISO 8859-9", "ISO-8859-9"), ("ISO 8859-15", "ISO-8859-15"),
    ("CP 1250", "CP1250"), ("CP 1251", "CP1251"), ("CP 1252", "CP1252"), ("CP 1253", "CP1253"),
    ("CP 1254", "CP1254"), ("CP 1255", "CP1255"), ("CP 1256", "CP1256"), ("CP 1257", "CP1257"),
    ("GBK", "GBK"), ("BIG5", "BIG-5"), ("KOI8-R", "KOI8R"), ("Shift-JIS", "SHIFT-JIS"),
    ("JIS7", ""), ("eucJP", "EUCJP"), ("eucKR", "EUCKR"), ("TSCII", "TSCII"),
    ("TIS-620", "TIS620"), ("KOI8-U", "KOI8U"), ("UTF-8", "UTF-8")]

def get_iconv_encoding_name (name : List Char) : List Char :=
  match encodingNames.find? fun entry => sameName name entry.1.toList with
  | some entry => entry.2.toList
  | none => name

/-! ## The buffer -/

/-- What `my_translate` ends with: a string, or a write outside of the buffer, or the reading of a
byte that has never been written. -/
inductive Outcome where
  | returned (s : List UInt8)
  | outside
  | undefined
  deriving DecidableEq

/-- `result`, a byte of which is `none` until it is written, with `resptr`, `tosize`, `ressize` and
the characters of the message that are left. -/
structure Buffer where
  result : List (Option UInt8)
  resptr : ℕ
  tosize : ℕ
  ressize : ℕ
  units : List Converted

/-- `realloc` -/
def realloc (result : List (Option UInt8)) (size : ℕ) : List (Option UInt8) :=
  result.take size ++ List.replicate (size - result.length) none

/-- `string ret(result)`: the bytes up to the first null byte. -/
def readString : List (Option UInt8) → Option (List UInt8)
  | [] => none
  | none :: _ => none
  | some b :: s => if b = 0 then some [] else (readString s).map (b :: ·)

/-- Behind the loop: `*resptr = 0` and the result as a string. -/
def Buffer.finish (b : Buffer) : Outcome :=
  if b.resptr < b.result.length then
    match readString (b.result.set b.resptr (some 0)) with
    | some s => .returned s
    | none => .undefined
  else .outside

/-- The loop; `rest` bytes of `msg` cannot be converted. -/
def Buffer.loop (msg : List UInt8) (rest : ℕ) : ℕ → Buffer → Option Outcome
  | 0, _ => none
  | fuel + 1, b =>
    if 0 < inSize b.units + rest ∧ 0 < b.tosize then
      let (out, left) := fit b.tosize b.units
      if b.result.length < b.resptr + out.length then some .outside
      else
        let result := writeAt b.result b.resptr (out.map some)
        let tosize := b.tosize - out.length
        match left with
        | [] =>
          if rest = 0 then
            Buffer.loop msg rest fuel
              { b with result, resptr := b.resptr + out.length, tosize, units := [] }
          else some (.returned msg)
        | u :: us =>
          -- array is not enough: add fromsize + 4 more characters to array
          let fromsize := inSize (u :: us) + rest
          Buffer.loop msg rest fuel
            { result := realloc result (b.ressize + fromsize + 4)
              resptr := b.ressize
              tosize := tosize + fromsize + 4
              ressize := b.ressize + fromsize + 4
              units := u :: us }
    else some b.finish

/-- `my_translate`; `iconv_open` gives the conversion from an encoding to another, if there is one. -/
def my_translate (iconv_open : List Char → List Char → Option Iconv) (localencoding userenc : List Char)
    (fuel : ℕ) (msg : List UInt8) : Option Outcome :=
  if localencoding = [] then some (.returned msg)
  else if userenc = [] then some (.returned msg)
  else
    match iconv_open (localencoding ++ "//IGNORE".toList) (get_iconv_encoding_name userenc) with
    | none => some (.returned msg)
    | some conv =>
      Buffer.loop msg (conv.convert msg).rest fuel
        { result := List.replicate (msg.length + 1) none
          resptr := 0
          tosize := msg.length
          ressize := msg.length
          units := (conv.convert msg).units }

/-! ## What it should do -/

/-- The complete conversion of a message, or the message where it cannot be converted. -/
def Iconv.result (conv : Iconv) (msg : List UInt8) : List UInt8 :=
  if (conv.convert msg).rest = 0 then outputs (conv.convert msg).units else msg

/-- **What the claim is**: the translation ends, with the complete conversion of the message, or with
the message where it cannot be converted. -/
def Translates (iconv_open : List Char → List Char → Option Iconv)
    (localencoding userenc : List Char) (msg : List UInt8) : Prop :=
  ∃ fuel, my_translate iconv_open localencoding userenc fuel msg =
    some (.returned
      (if localencoding = [] ∨ userenc = [] then msg
      else ((iconv_open (localencoding ++ "//IGNORE".toList) (get_iconv_encoding_name userenc)).map
        fun conv => conv.result msg).getD msg))

/-- The calls of `iconv`, each with the space that it is told and the bytes that there are.  A message
that can be converted fills the space at each call but the last, and leaves a byte of a buffer that
has grown; otherwise no call writes more than there is. -/
inductive Sound (rest : ℕ) : Bool → ℕ → ℕ → List Converted → Prop
  | last {grown : Bool} {space room : ℕ} {us : List Converted} (hfit : (fit space us).2 = [])
    (hroom : (fit space us).1.length ≤ room)
    (hnul : rest = 0 → grown = true → (fit space us).1.length < room) : Sound rest grown space room us
  | grow {grown : Bool} {space room : ℕ} {us : List Converted} (hfit : (fit space us).2 ≠ [])
    (hroom : (fit space us).1.length ≤ room) (hfull : rest = 0 → (fit space us).1.length = space)
    (hgrown : Sound rest true (space - (fit space us).1.length + (inSize (fit space us).2 + rest) + 4)
      (inSize (fit space us).2 + rest + 4) (fit space us).2) : Sound rest grown space room us

/-- The calls are sound, and a null byte does not end the conversion. -/
def Convertible (conv : Iconv) (msg : List UInt8) : Prop :=
  Sound (conv.convert msg).rest false msg.length (msg.length + 1) (conv.convert msg).units ∧
    ((conv.convert msg).rest = 0 → 0 ∉ outputs (conv.convert msg).units)

/-! ## A call of `iconv` -/

theorem fit_append (space : ℕ) (us : List Converted) :
    (fit space us).1 ++ outputs (fit space us).2 = outputs us := by
  induction us generalizing space with
  | nil => rfl
  | cons u us ih =>
    rw [fit]
    split_ifs
    · simp only [outputs, flatMap_cons, append_assoc] at ih ⊢
      rw [ih]
    · rfl

theorem length_fit_le (space : ℕ) (us : List Converted) : (fit space us).1.length ≤ space := by
  induction us generalizing space with
  | nil => exact Nat.zero_le _
  | cons u us ih =>
    rw [fit]
    split_ifs with hle
    · have := ih (space - u.output.length)
      simp only [length_append]
      omega
    · exact Nat.zero_le _

variable {us : List Converted} {done : List UInt8} {room : ℕ}

theorem mem_of_mem_fit {space : ℕ} {u : Converted} (h : u ∈ (fit space us).2) : u ∈ us := by
  induction us generalizing space with
  | nil => exact h
  | cons v us ih =>
    rw [fit] at h
    split_ifs at h
    · exact mem_cons_of_mem v (ih h)
    · exact h

theorem inSize_pos (hne : us ≠ []) (hpos : ∀ u ∈ us, 0 < u.consumed) : 0 < inSize us := by
  cases us with
  | nil => exact absurd rfl hne
  | cons u us => exact Nat.lt_of_lt_of_le (hpos u mem_cons_self) (Nat.le_add_right _ _)

/-! ## The buffer -/

theorem readString_written (s : List UInt8) (junk : List (Option UInt8)) :
    readString (s.map some ++ some 0 :: junk) = some (s.takeWhile (· ≠ 0)) := by
  induction s with
  | nil => rfl
  | cons c s ih =>
    rw [map_cons, cons_append, readString, ih, takeWhile_cons]
    by_cases hc : c = 0
    · simp [hc]
    · simp [hc]

/-- A string ends before a byte that has not been written. -/
theorem length_lt_of_readString {result : List (Option UInt8)} {s : List UInt8} {gap : ℕ}
    (hgap : result[gap]? = some none) (h : readString result = some s) : s.length < gap := by
  induction result generalizing gap s with
  | nil => cases h
  | cons x result ih =>
    cases x with
    | none => cases h
    | some c =>
      cases gap with
      | zero => cases hgap
      | succ gap =>
        rw [readString] at h
        split_ifs at h
        · cases h
          exact gap.succ_pos
        · obtain ⟨s', hs', rfl⟩ := Option.map_eq_some_iff.mp h
          exact Nat.succ_lt_succ (ih hgap hs')

theorem length_realloc (result : List (Option UInt8)) (size : ℕ) :
    (realloc result size).length = size := by
  rw [realloc, length_append, length_take, length_replicate]
  omega

theorem getElem?_realloc {result : List (Option UInt8)} {size k : ℕ} (hk : k < size)
    (hlen : k < result.length) : (realloc result size)[k]? = result[k]? := by
  rw [realloc, getElem?_append_left (by rw [length_take]; omega),
    getElem?_take_of_lt hk]

/-- The bytes that have been written, and some that have not. -/
def written (done : List UInt8) (room : ℕ) : List (Option UInt8) :=
  done.map some ++ List.replicate room none

theorem length_written (done : List UInt8) (room : ℕ) :
    (written done room).length = done.length + room := by
  rw [written, length_append, length_map, length_replicate]

theorem writeAt_written {out : List UInt8} :
    writeAt (written done room) done.length (out.map some) =
      written (done ++ out) (room - out.length) := by
  have hdone : done.length = (done.map some).length := by rw [length_map]
  rw [writeAt, written, length_map, take_left' hdone.symm, written, map_append]
  congr 1
  rw [drop_append, drop_eq_nil_of_le (by rw [length_map]; omega), nil_append,
    length_map, Nat.add_sub_cancel_left, drop_replicate]

theorem realloc_written {size : ℕ} (hsize : done.length + room ≤ size) :
    realloc (written done room) size = written done (size - done.length) := by
  rw [realloc, length_written, take_of_length_le (by rw [length_written]; exact hsize), written,
    written, append_assoc, replicate_append_replicate]
  congr 2
  omega

theorem finish_written {tosize ressize : ℕ}
    (hroom : 0 < room) :
    Buffer.finish ⟨written done room, done.length, tosize, ressize, us⟩ =
      .returned (done.takeWhile (· ≠ 0)) := by
  have hset : (written done room).set done.length (some 0) =
      done.map some ++ some 0 :: replicate (room - 1) none := by
    obtain ⟨n, rfl⟩ := Nat.exists_eq_succ_of_ne_zero hroom.ne'
    rw [written, set_append_right _ _ (by rw [length_map]), length_map,
      Nat.sub_self, replicate_succ, set_cons_zero]
    rfl
  rw [Buffer.finish, if_pos (by simp only [length_written]; omega)]
  simp only [hset, readString_written]

/-! ## One round -/

section Round

variable {msg : List UInt8} {rest fuel : ℕ} {b : Buffer}

theorem loop_done (h : ¬(0 < inSize b.units + rest ∧ 0 < b.tosize)) :
    b.loop msg rest (fuel + 1) = some b.finish := if_neg h

/-- The call writes outside of the buffer. -/
theorem loop_outside (h : 0 < inSize b.units + rest ∧ 0 < b.tosize)
    (hout : b.result.length < b.resptr + (fit b.tosize b.units).1.length) :
    b.loop msg rest (fuel + 1) = some .outside := by
  rw [Buffer.loop, if_pos h]
  exact if_pos hout

/-- The call comes to the end of the characters. -/
theorem loop_last (h : 0 < inSize b.units + rest ∧ 0 < b.tosize)
    (hout : b.resptr + (fit b.tosize b.units).1.length ≤ b.result.length)
    (hfit : (fit b.tosize b.units).2 = []) :
    b.loop msg rest (fuel + 1) =
      if rest = 0 then
        Buffer.loop msg rest fuel
          ⟨writeAt b.result b.resptr ((fit b.tosize b.units).1.map some),
            b.resptr + (fit b.tosize b.units).1.length, b.tosize - (fit b.tosize b.units).1.length,
            b.ressize, []⟩
      else some (.returned msg) := by
  rw [Buffer.loop, if_pos h]
  cases hcall : fit b.tosize b.units with
  | mk out left =>
    rw [hcall] at hout hfit
    simp only at hout hfit
    subst hfit
    simp only [if_neg hout.not_gt]

/-- The call runs out of space. -/
theorem loop_grow (h : 0 < inSize b.units + rest ∧ 0 < b.tosize)
    (hout : b.resptr + (fit b.tosize b.units).1.length ≤ b.result.length)
    (hfit : (fit b.tosize b.units).2 ≠ []) :
    b.loop msg rest (fuel + 1) =
      Buffer.loop msg rest fuel
        ⟨realloc (writeAt b.result b.resptr ((fit b.tosize b.units).1.map some))
            (b.ressize + (inSize (fit b.tosize b.units).2 + rest) + 4),
          b.ressize,
          b.tosize - (fit b.tosize b.units).1.length + (inSize (fit b.tosize b.units).2 + rest) + 4,
          b.ressize + (inSize (fit b.tosize b.units).2 + rest) + 4,
          (fit b.tosize b.units).2⟩ := by
  rw [Buffer.loop, if_pos h]
  cases hcall : fit b.tosize b.units with
  | mk out left =>
    rw [hcall] at hout hfit
    simp only at hout hfit
    cases left with
    | nil => exact absurd rfl hfit
    | cons u us => simp only [if_neg hout.not_gt]

end Round

/-! ## Messages that cannot be converted -/

section Error

variable {msg : List UInt8} {rest : ℕ} {grown : Bool} {space room : ℕ} {us : List Converted}

/-- With sound calls the message itself is returned. -/
theorem loop_error_of_sound (hrest : 0 < rest) (h : Sound rest grown space room us)
    (hspace : 0 < space) {b : Buffer} (hunits : b.units = us) (htosize : b.tosize = space)
    (hlen : b.result.length = b.resptr + room) :
    ∃ fuel, b.loop msg rest fuel = some (.returned msg) := by
  induction h generalizing b with
  | last hfit hroom hnul =>
    subst hunits htosize
    refine ⟨1, ?_⟩
    rw [loop_last ⟨by omega, hspace⟩ (by omega) hfit, if_neg hrest.ne']
  | grow hfit hroom hfull hgrown ih =>
    subst hunits htosize
    obtain ⟨fuel, hloop⟩ := ih (by omega)
      (b := ⟨realloc (writeAt b.result b.resptr ((fit b.tosize b.units).1.map some))
            (b.ressize + (inSize (fit b.tosize b.units).2 + rest) + 4),
          b.ressize,
          b.tosize - (fit b.tosize b.units).1.length + (inSize (fit b.tosize b.units).2 + rest) + 4,
          b.ressize + (inSize (fit b.tosize b.units).2 + rest) + 4,
          (fit b.tosize b.units).2⟩) rfl rfl (by rw [length_realloc, Nat.add_assoc])
    refine ⟨fuel + 1, ?_⟩
    rw [loop_grow ⟨by omega, hspace⟩ (by omega) hfit, hloop]

/-- Without a write outside of the buffer the calls are sound. -/
theorem sound_of_loop_error (hrest : 0 < rest) {fuel : ℕ} {b : Buffer} (hspace : 0 < b.tosize)
    (hlen : b.result.length = b.resptr + room) {s : List UInt8}
    (hloop : b.loop msg rest fuel = some (.returned s)) : Sound rest grown b.tosize room b.units := by
  induction fuel generalizing b grown room with
  | zero => cases hloop
  | succ fuel ih =>
    have hgo : 0 < inSize b.units + rest ∧ 0 < b.tosize := ⟨by omega, hspace⟩
    rcases Nat.lt_or_ge b.result.length (b.resptr + (fit b.tosize b.units).1.length) with hlt | hge
    · rw [loop_outside hgo hlt] at hloop
      cases hloop
    · by_cases hfit : (fit b.tosize b.units).2 = []
      · exact .last hfit (by omega) fun h => absurd h hrest.ne'
      · rw [loop_grow hgo hge hfit] at hloop
        refine .grow hfit (by omega) (fun h => absurd h hrest.ne') ?_
        exact ih (by simp only; omega) (by rw [length_realloc, Nat.add_assoc]) hloop

end Error

/-! ## Messages that can be converted -/

section Success

variable {msg : List UInt8} {grown : Bool} {space room : ℕ} {us : List Converted}

/-- The room that there is: a buffer that has not grown has a byte more than the space. -/
def RoomFor (grown : Bool) (space room : ℕ) : Prop := room = if grown then space else space + 1

/-- The buffer that has been filled, made larger. -/
theorem grown_eq {done out : List UInt8} {n : ℕ} (hfull : out.length = space)
    (hroom : room ≤ space + 1) :
    (⟨realloc (writeAt (written done room) done.length (out.map some)) (done.length + space + n + 4),
        done.length + space, space - out.length + n + 4, done.length + space + n + 4, us⟩ : Buffer) =
      ⟨written (done ++ out) (n + 4), (done ++ out).length, space - out.length + n + 4,
        (done ++ out).length + (space - out.length + n + 4), us⟩ := by
  have hlen : (done ++ out).length = done.length + space := by rw [length_append, hfull]
  rw [writeAt_written, realloc_written (by rw [hlen]; omega), hlen, Buffer.mk.injEq]
  refine ⟨?_, rfl, rfl, by omega, rfl⟩
  rw [show done.length + space + n + 4 - (done.length + space) = n + 4 by omega]

/-- With sound calls the whole conversion is written, and returned up to its first null byte. -/
theorem loop_of_sound (msg : List UInt8) (h : Sound 0 grown space room us) (hroomFor : RoomFor grown space room)
    (hspace : us ≠ [] → 0 < space) (hpos : ∀ u ∈ us, 0 < u.consumed) (done : List UInt8) :
    ∃ fuel, Buffer.loop msg 0 fuel
        ⟨written done room, done.length, space, done.length + space, us⟩ =
      some (.returned ((done ++ outputs us).takeWhile (· ≠ 0))) := by
  induction h generalizing done with
  | @last grown space room us hfit hroom hnul =>
    have hout : (fit space us).1 = outputs us := by
      have happ := fit_append space us
      rwa [hfit, outputs, flatMap_nil, append_nil] at happ
    have hlt : (fit space us).1.length < room := by
      cases grown with
      | true => exact hnul rfl rfl
      | false =>
        have := length_fit_le space us
        simp only [RoomFor, Bool.false_eq_true, if_false] at hroomFor
        omega
    by_cases hne : us = []
    · subst hne
      refine ⟨1, ?_⟩
      rw [loop_done (by simp [inSize]), finish_written (by omega), outputs, flatMap_nil,
        append_nil]
    · refine ⟨2, ?_⟩
      have hsize := inSize_pos hne hpos
      rw [loop_last ⟨by simpa using hsize, hspace hne⟩ (by simp only [length_written]; omega) hfit,
        if_pos rfl, loop_done (by simp [inSize])]
      simp only [writeAt_written, hout]
      rw [← length_append, finish_written (by rw [← hout]; omega)]
  | @grow grown space room us hfit hroom hfull hgrown ih =>
    have hne : us ≠ [] := by
      rintro rfl
      exact hfit rfl
    have hsize := inSize_pos hne hpos
    have hfull := hfull rfl
    have hroom' : room = space ∨ room = space + 1 := by
      rw [RoomFor] at hroomFor
      split_ifs at hroomFor
      · exact Or.inl hroomFor
      · exact Or.inr hroomFor
    obtain ⟨fuel, hloop⟩ := ih (by rw [RoomFor, if_pos rfl]; omega) (fun _ => by omega)
      (fun u hu => hpos u (mem_of_mem_fit hu)) (done ++ (fit space us).1)
    refine ⟨fuel + 1, ?_⟩
    rw [append_assoc, fit_append] at hloop
    rw [loop_grow ⟨by simpa using hsize, hspace hne⟩ (by simp only [length_written]; omega) hfit,
      ← hloop, grown_eq hfull (by omega)]

/-- A call that cannot be converted to a sound one leaves a byte that is never written. -/
theorem length_lt_of_gap {fuel : ℕ} (gap : ℕ) {b : Buffer} (hgap : b.result[gap]? = some none)
    (hptr : gap < b.resptr) (hsize : gap < b.ressize) {s : List UInt8}
    (hloop : b.loop msg 0 fuel = some (.returned s)) : s.length < gap := by
  induction fuel generalizing b with
  | zero => cases hloop
  | succ fuel ih =>
    have hlen : gap < b.result.length := (List.getElem?_eq_some_iff.mp hgap).1
    by_cases hgo : 0 < inSize b.units + 0 ∧ 0 < b.tosize
    · rcases Nat.lt_or_ge b.result.length (b.resptr + (fit b.tosize b.units).1.length) with hlt | hge
      · rw [loop_outside hgo hlt] at hloop
        cases hloop
      · have hwrite : ∀ bytes, (writeAt b.result b.resptr bytes)[gap]? = some none := by
          intro bytes
          rw [writeAt, append_assoc, getElem?_append_left (by rw [length_take]; omega),
            getElem?_take_of_lt hptr, hgap]
        by_cases hfit : (fit b.tosize b.units).2 = []
        · rw [loop_last hgo hge hfit, if_pos rfl] at hloop
          refine ih ?_ ?_ ?_ hloop
          · exact hwrite _
          · exact Nat.lt_of_lt_of_le hptr (Nat.le_add_right _ _)
          · exact hsize
        · rw [loop_grow hgo hge hfit] at hloop
          refine ih ?_ hsize (by simp only; omega) hloop
          rw [getElem?_realloc (by omega) (List.getElem?_eq_some_iff.mp (hwrite _)).1, hwrite]
    · rw [loop_done hgo, Buffer.finish] at hloop
      split_ifs at hloop
      · cases hread : readString (b.result.set b.resptr (some 0)) with
        | none =>
          rw [hread] at hloop
          cases hloop
        | some s' =>
          rw [hread] at hloop
          obtain rfl := Outcome.returned.inj (Option.some.inj hloop)
          refine length_lt_of_readString ?_ hread
          rwa [getElem?_set_ne hptr.ne']
      · cases hloop

/-- When the whole conversion is returned, the calls are sound and there is no null byte in it. -/
theorem sound_of_loop {fuel : ℕ} (hroomFor : RoomFor grown space room)
    (hspace : us ≠ [] → 0 < space) (hpos : ∀ u ∈ us, 0 < u.consumed) {done : List UInt8}
    (hloop : Buffer.loop msg 0 fuel ⟨written done room, done.length, space, done.length + space, us⟩ =
      some (.returned (done ++ outputs us))) :
    Sound 0 grown space room us ∧ 0 ∉ done ++ outputs us := by
  have hfinish : ∀ {done' : List UInt8} {room' tosize ressize : ℕ} {us' : List Converted},
      some (Buffer.finish ⟨written done' room', done'.length, tosize, ressize, us'⟩) =
        some (.returned done') → 0 < room' ∧ 0 ∉ done' := by
    intro done' room' tosize ressize us' h
    have hroom : 0 < room' := by
      by_contra hzero
      rw [Buffer.finish, if_neg (by simp only [length_written]; omega)] at h
      cases h
    rw [finish_written hroom] at h
    have htake := Outcome.returned.inj (Option.some.inj h)
    refine ⟨hroom, fun hmem => ?_⟩
    simpa using takeWhile_eq_self_iff.mp htake 0 hmem
  induction fuel generalizing grown space room us done with
  | zero => cases hloop
  | succ fuel ih =>
    by_cases hne : us = []
    · subst hne
      rw [loop_done (by simp [inSize]), outputs, flatMap_nil, append_nil] at hloop
      obtain ⟨hroom, hnul⟩ := hfinish hloop
      refine ⟨.last rfl (Nat.zero_le _) fun _ _ => hroom, ?_⟩
      rwa [outputs, flatMap_nil, append_nil]
    · have hgo : 0 < inSize us + 0 ∧ 0 < space := ⟨by simpa using inSize_pos hne hpos, hspace hne⟩
      rcases Nat.lt_or_ge (written done room).length (done.length + (fit space us).1.length) with
        hlt | hge
      · rw [loop_outside hgo hlt] at hloop
        cases hloop
      · have hroom : (fit space us).1.length ≤ room := by
          rw [length_written] at hge
          omega
        by_cases hfit : (fit space us).2 = []
        · rw [loop_last hgo hge hfit, if_pos rfl] at hloop
          have hout : (fit space us).1 = outputs us := by
            have happ := fit_append space us
            rwa [hfit, outputs, flatMap_nil, append_nil] at happ
          cases fuel with
          | zero => cases hloop
          | succ fuel =>
            rw [loop_done (by simp [inSize])] at hloop
            simp only [writeAt_written, ← length_append] at hloop
            rw [hout] at hloop
            obtain ⟨hleft, hnul⟩ := hfinish hloop
            exact ⟨.last hfit hroom fun _ _ => by rw [hout]; omega, hnul⟩
        · rw [loop_grow hgo hge hfit] at hloop
          by_cases hfull : (fit space us).1.length = space
          · have hroom' : space ≤ room ∧ room ≤ space + 1 := by
              rw [RoomFor] at hroomFor
              split_ifs at hroomFor <;> omega
            rw [grown_eq hfull hroom'.2, ← fit_append space us, ← append_assoc] at hloop
            obtain ⟨hsound, hnul⟩ := ih (by rw [RoomFor, if_pos rfl]; omega) (fun _ => by omega)
              (fun u hu => hpos u (mem_of_mem_fit hu)) hloop
            rw [append_assoc, fit_append] at hnul
            exact ⟨.grow hfit hroom (fun _ => hfull) hsound, hnul⟩
          · -- the bytes that the call has left unused are never written
            have hle := length_fit_le space us
            have hspace' : space ≤ room := by
              rw [RoomFor] at hroomFor
              split_ifs at hroomFor <;> omega
            have hlt := length_lt_of_gap (done.length + (fit space us).1.length) ?_
              (by simp only; omega) (by simp only; omega) hloop
            · have happ := congrArg List.length (fit_append space us)
              simp only [length_append] at hlt happ
              omega
            · simp only [writeAt_written]
              rw [getElem?_realloc (by omega) (by rw [length_written, length_append]; omega),
                written, getElem?_append_right (by simp), getElem?_replicate]
              rw [if_pos (by simp; omega)]

end Success

/-! ## When a message is translated -/

/-- The loop returns what it should exactly when the message is convertible. -/
theorem exists_loop_iff (conv : Iconv) (msg : List UInt8) :
    (∃ fuel, Buffer.loop msg (conv.convert msg).rest fuel
        ⟨List.replicate (msg.length + 1) none, 0, msg.length, msg.length, (conv.convert msg).units⟩ =
      some (.returned (conv.result msg))) ↔ Convertible conv msg := by
  have hsize := conv.size_eq msg
  have hpos := conv.consumed_pos msg
  rw [Convertible, Iconv.result]
  generalize (conv.convert msg).rest = rest at hsize
  generalize (conv.convert msg).units = us at hsize hpos
  rcases Nat.eq_zero_or_pos rest with rfl | hrest
  · have hspace : us ≠ [] → 0 < msg.length := fun hne => by
      have := inSize_pos hne hpos
      omega
    have hroomFor : RoomFor false msg.length (msg.length + 1) := rfl
    have hbuffer : (⟨replicate (msg.length + 1) none, 0, msg.length, msg.length, us⟩ : Buffer) =
        ⟨written [] (msg.length + 1), ([] : List UInt8).length, msg.length,
          ([] : List UInt8).length + msg.length, us⟩ := by
      simp [written]
    rw [if_pos rfl, hbuffer]
    constructor
    · rintro ⟨fuel, hloop⟩
      obtain ⟨hsound, hnul⟩ := sound_of_loop hroomFor hspace hpos hloop
      exact ⟨hsound, fun _ => hnul⟩
    · rintro ⟨hsound, hnul⟩
      obtain ⟨fuel, hloop⟩ := loop_of_sound msg hsound hroomFor hspace hpos []
      refine ⟨fuel, ?_⟩
      have htake : (outputs us).takeWhile (· ≠ 0) = outputs us :=
        takeWhile_eq_self_iff.mpr fun c hc => by
          simpa using fun h : c = 0 => hnul rfl (h ▸ hc)
      rwa [nil_append, htake] at hloop
  · have hspace : 0 < msg.length := by omega
    rw [if_neg hrest.ne']
    constructor
    · rintro ⟨fuel, hloop⟩
      refine ⟨sound_of_loop_error hrest hspace ?_ hloop, fun h => absurd h hrest.ne'⟩
      rw [length_replicate, Nat.zero_add]
    · rintro ⟨hsound, -⟩
      exact loop_error_of_sound hrest hsound hspace rfl rfl
        (by rw [length_replicate, Nat.zero_add])

end Licq.Osd
